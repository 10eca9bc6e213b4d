/-
ProxyBroker.Lib.Utf8 — UTF-8 text in byte buffers: encoding, decoding with
replacement characters, and writing a text into a buffer of fixed size.

The encoder and the one-character decoder are Lean core's
(`String.utf8EncodeChar`, `ByteArray.utf8DecodeChar?`); what is added is
the total decoder every text API runs on foreign bytes. `decode` emits
U+FFFD for each maximal ill-formed part and goes on behind it, and
`decode_encode` says it gives back every text it is given the encoding
of. In foreign bytes the ASCII ones can be relied on: none is swallowed
(`decode_append_ascii`), and none is made up (`exists_of_decode_eq`), so
a delimiter is found in the text where it stands in the bytes.

`write` is the fixed-size writer: it stores whole characters while they
fit and leaves the rest of the buffer as it was. `write_of_length_eq` is
the case where the buffer has exactly the size of the text.

The size of a text is counted twice, in bytes (`(encode cs).length`)
and in UTF-16 code units (`units`). `units_eq_length_encode_iff` is the
comparison that decides whether a buffer sized by the one holds the
other.
-/
import Mathlib.Data.List.Basic

namespace Lib.Utf8

/-! ## Encoding -/

def encode (cs : List Char) : List UInt8 := cs.flatMap String.utf8EncodeChar

@[simp] theorem encode_nil : encode [] = [] := rfl

theorem encode_cons (c : Char) (cs : List Char) :
    encode (c :: cs) = String.utf8EncodeChar c ++ encode cs := rfl

theorem encode_append (cs ds : List Char) : encode (cs ++ ds) = encode cs ++ encode ds :=
  List.flatMap_append

/-- UTF-16 code units of a text: two for a character above U+FFFF. -/
def units : List Char → Nat
  | [] => 0
  | c :: cs => (if c.val ≤ 0xFFFF then 1 else 2) + units cs

@[simp] theorem units_nil : units [] = 0 := rfl

theorem units_cons (c : Char) (cs : List Char) :
    units (c :: cs) = (if c.val ≤ 0xFFFF then 1 else 2) + units cs := rfl

theorem units_append (cs ds : List Char) : units (cs ++ ds) = units cs + units ds := by
  induction cs with
  | nil => simp
  | cons c cs ih => rw [List.cons_append, units_cons, units_cons, ih, Nat.add_assoc]

def isAscii (c : Char) : Bool := c.val ≤ 0x7F

/-- One character takes no more code units than bytes, and as many
only when it is ASCII. -/
theorem charUnits_le (c : Char) :
    (if c.val ≤ 0xFFFF then 1 else 2) ≤ c.utf8Size ∧
      ((if c.val ≤ 0xFFFF then 1 else 2) = c.utf8Size ↔ isAscii c = true) := by
  have h1 : ∀ n : Nat, (hn : n < UInt32.size) → (c.val ≤ UInt32.ofNatLT n hn ↔ c.val.toNat ≤ n) :=
    fun n hn => Iff.rfl
  have h2 : c.val ≤ 0xFFFF ↔ c.val.toNat ≤ 0xFFFF := Iff.rfl
  have h3 : isAscii c = true ↔ c.val.toNat ≤ 0x7F := by
    rw [isAscii, decide_eq_true_iff]
    exact Iff.rfl
  rw [h3]
  unfold Char.utf8Size
  simp only [h1, h2]
  split <;> split <;> (try split) <;> omega

theorem units_le_length_encode (cs : List Char) : units cs ≤ (encode cs).length := by
  induction cs with
  | nil => exact Nat.le_refl 0
  | cons c cs ih =>
      rw [units_cons, encode_cons, List.length_append, String.length_utf8EncodeChar]
      have := (charUnits_le c).1
      omega

/-- A text has as many bytes as code units exactly when it is ASCII. -/
theorem units_eq_length_encode_iff (cs : List Char) :
    units cs = (encode cs).length ↔ cs.all isAscii = true := by
  induction cs with
  | nil => simp
  | cons c cs ih =>
      rw [units_cons, encode_cons, List.length_append, String.length_utf8EncodeChar,
        List.all_cons, Bool.and_eq_true, ← ih, ← (charUnits_le c).2]
      have hc := (charUnits_le c).1
      have hcs := units_le_length_encode cs
      omega

/-! ## Decoding -/

/-- Bytes an ill-formed sequence loses to one replacement character: the
longest start of a well-formed character, or a single byte. -/
def illFormedLength : List UInt8 → Nat
  | a :: b :: rest =>
      let second : Bool :=
        if a = 0xE0 then 0xA0 ≤ b && b ≤ 0xBF
        else if a = 0xED then 0x80 ≤ b && b ≤ 0x9F
        else if a = 0xF0 then 0x90 ≤ b && b ≤ 0xBF
        else if a = 0xF4 then 0x80 ≤ b && b ≤ 0x8F
        else 0xE1 ≤ a && a ≤ 0xF3 && 0x80 ≤ b && b ≤ 0xBF
      if second then
        match rest with
        | c :: _ => if 0xF0 ≤ a && 0x80 ≤ c && c ≤ 0xBF then 3 else 2
        | [] => 2
      else 1
  | _ => 1

/-- Decode behind `k` bytes that belong to the character before. -/
def decodeFrom : Nat → List UInt8 → List Char
  | _, [] => []
  | k + 1, _ :: bs => decodeFrom k bs
  | 0, b :: bs =>
      match ((b :: bs).take 4).toByteArray.utf8DecodeChar? 0 with
      | some c => c :: decodeFrom (c.utf8Size - 1) bs
      | none => '\uFFFD' :: decodeFrom (illFormedLength (b :: bs) - 1) bs

def decode (bs : List UInt8) : List Char := decodeFrom 0 bs

theorem decodeFrom_drop (k : Nat) (bs : List UInt8) : decodeFrom k bs = decode (bs.drop k) := by
  induction bs generalizing k with
  | nil => simp [decode, decodeFrom]
  | cons b bs ih =>
      cases k with
      | zero => rfl
      | succ k => rw [decodeFrom, ih, List.drop_succ_cons]

theorem decode_encodeChar_append (c : Char) (bs : List UInt8) :
    decode (String.utf8EncodeChar c ++ bs) = c :: decode bs := by
  have hlen : (String.utf8EncodeChar c).length = c.utf8Size := String.length_utf8EncodeChar c
  obtain ⟨b, tl, hb⟩ := List.exists_cons_of_ne_nil (String.utf8EncodeChar_ne_nil (c := c))
  have hdec : ((String.utf8EncodeChar c ++ bs).take 4).toByteArray.utf8DecodeChar? 0 = some c := by
    rw [List.take_append, List.take_of_length_le (by rw [hlen]; exact c.utf8Size_le_four),
      List.toByteArray_append]
    exact ByteArray.utf8DecodeChar?_utf8EncodeChar_append
  have hsize : tl.length = c.utf8Size - 1 := by
    rw [hb, List.length_cons] at hlen
    omega
  rw [hb, List.cons_append] at hdec ⊢
  rw [decode, decodeFrom, hdec]
  simp only [decodeFrom_drop]
  rw [List.drop_append_of_le_length (by omega), List.drop_of_length_le (by omega),
    List.nil_append]

/-- **Round trip**: a text is read back from its encoding. -/
theorem decode_encode (cs : List Char) : decode (encode cs) = cs := by
  induction cs with
  | nil => rfl
  | cons c cs ih => rw [encode_cons, decode_encodeChar_append, ih]

theorem decode_encode_append (cs : List Char) (bs : List UInt8) :
    decode (encode cs ++ bs) = cs ++ decode bs := by
  induction cs with
  | nil => rfl
  | cons c cs ih =>
      rw [encode_cons, List.append_assoc, decode_encodeChar_append, ih, List.cons_append]

/-! ## ASCII in foreign bytes -/

/-- Every byte of a character behind the first is above 0x7F. -/
theorem le_of_mem_tail_utf8EncodeChar {c : Char} {b : UInt8}
    (h : b ∈ (String.utf8EncodeChar c).tail) : 0x80 ≤ b := by
  have hcont : ∀ n : Nat, 0x80 ≤ UInt8.ofNat (n % 64 + 0x80) := by
    intro n
    have hlt : n % 64 + 0x80 < 256 := by omega
    rw [UInt8.le_iff_toNat_le, UInt8.toNat_ofNat_of_lt' hlt]
    exact Nat.le_add_left _ _
  have htail : ∃ ns : List Nat,
      (String.utf8EncodeChar c).tail = ns.map (fun n => UInt8.ofNat (n % 64 + 0x80)) := by
    unfold String.utf8EncodeChar
    dsimp only
    split
    · exact ⟨[], rfl⟩
    · split
      · exact ⟨[_], rfl⟩
      · split
        · exact ⟨[_, _], rfl⟩
        · exact ⟨[_, _, _], rfl⟩
  obtain ⟨ns, hns⟩ := htail
  rw [hns] at h
  obtain ⟨n, -, rfl⟩ := List.mem_map.mp h
  exact hcont n

theorem utf8EncodeChar_of_isAscii {c : Char} (h : isAscii c = true) :
    String.utf8EncodeChar c = [c.val.toUInt8] := by
  have hv : c.val.toNat ≤ 0x7F := of_decide_eq_true h
  apply String.utf8EncodeChar_eq_singleton
  have hc : c.val ≤ 0x7F := hv
  simp [Char.utf8Size, hc]

/-- The character of an ASCII byte. -/
theorem encode_ofNat {b : UInt8} (h : b < 0x80) :
    isAscii (Char.ofNat b.toNat) = true ∧ (Char.ofNat b.toNat).val.toUInt8 = b := by
  have hall : ∀ n < 128, isAscii (Char.ofNat n) = true ∧
      (Char.ofNat n).val.toUInt8 = UInt8.ofNat n := by decide
  have hb := hall b.toNat (UInt8.lt_iff_toNat_lt.mp h)
  rwa [UInt8.ofNat_toNat] at hb

/-- ASCII bytes are decoded one by one. -/
theorem decode_of_ascii {bs : List UInt8} (h : ∀ b ∈ bs, b < 0x80) :
    decode bs = bs.map (fun b => Char.ofNat b.toNat) := by
  have hencode : encode (bs.map (fun b => Char.ofNat b.toNat)) = bs := by
    induction bs with
    | nil => rfl
    | cons b bs ih =>
        obtain ⟨hascii, hval⟩ := encode_ofNat (h b List.mem_cons_self)
        rw [List.map_cons, encode_cons, utf8EncodeChar_of_isAscii hascii, hval,
          ih (fun x hx => h x (List.mem_cons_of_mem _ hx)), List.singleton_append]
  calc
    decode bs = decode (encode (bs.map (fun b => Char.ofNat b.toNat))) := by rw [hencode]
    _ = bs.map (fun b => Char.ofNat b.toNat) := decode_encode _

/-- The second byte can continue the first. -/
def isSecond (a b : UInt8) : Bool :=
  if a = 0xE0 then 0xA0 ≤ b && b ≤ 0xBF
  else if a = 0xED then 0x80 ≤ b && b ≤ 0x9F
  else if a = 0xF0 then 0x90 ≤ b && b ≤ 0xBF
  else if a = 0xF4 then 0x80 ≤ b && b ≤ 0x8F
  else 0xE1 ≤ a && a ≤ 0xF3 && 0x80 ≤ b && b ≤ 0xBF

theorem isSecond_of_lt {a b : UInt8} (h : b < 0x80) : isSecond a b = false := by
  have hcont : ∀ n : UInt8, 0x80 ≤ n → ¬ n ≤ b := by
    intro n hn hle
    exact absurd (UInt8.le_trans hn hle) (UInt8.not_le.mpr h)
  unfold isSecond
  simp [hcont]

theorem illFormedLength_cons_cons (a b : UInt8) (rest : List UInt8) :
    illFormedLength (a :: b :: rest) =
      if isSecond a b then
        match rest with
        | c :: _ => if 0xF0 ≤ a && 0x80 ≤ c && c ≤ 0xBF then 3 else 2
        | [] => 2
      else 1 := rfl

theorem illFormedLength_pos (l : List UInt8) : 0 < illFormedLength l := by
  match l with
  | [] => exact Nat.one_pos
  | [_] => exact Nat.one_pos
  | a :: b :: rest =>
      rw [illFormedLength_cons_cons]
      cases isSecond a b with
      | false => exact Nat.one_pos
      | true =>
          cases rest with
          | nil => exact Nat.two_pos
          | cons c rest =>
              simp only [if_true]
              split <;> omega

/-- An ill-formed part ends in front of an ASCII byte, which is not
looked at. -/
theorem illFormedLength_append {a : List UInt8} (ha : a ≠ []) {y : UInt8} (hy : y < 0x80)
    (bs : List UInt8) :
    illFormedLength (a ++ y :: bs) = illFormedLength a ∧ illFormedLength a ≤ a.length := by
  have hcont : ¬ 0x80 ≤ y := UInt8.not_le.mpr hy
  match a, ha with
  | [x], _ =>
      refine ⟨?_, Nat.le_refl 1⟩
      rw [List.singleton_append, illFormedLength_cons_cons, isSecond_of_lt hy]
      rfl
  | [x, x'], _ =>
      simp only [List.cons_append, List.nil_append, illFormedLength_cons_cons]
      cases isSecond x x' <;> simp [hcont]
  | x :: x' :: x'' :: a, _ =>
      refine ⟨rfl, ?_⟩
      simp only [illFormedLength_cons_cons]
      cases isSecond x x' with
      | false => simp
      | true =>
          simp only [if_true, List.length_cons]
          split <;> omega

/-- What the decoder does at the start of a list of bytes: it reads the
character encoded there, or there is none. -/
theorem decode_cases (l : List UInt8) :
    l = [] ∨ (∃ c r, l = String.utf8EncodeChar c ++ r ∧ decode l = c :: decode r) ∨
      (l ≠ [] ∧ (∀ c, ¬ String.utf8EncodeChar c <+: l) ∧
        decode l = '\uFFFD' :: decode (l.drop (illFormedLength l))) := by
  cases l with
  | nil => exact .inl rfl
  | cons b bs =>
      refine .inr ?_
      by_cases hpre : ∃ c, String.utf8EncodeChar c <+: b :: bs
      · obtain ⟨c, r, hr⟩ := hpre
        exact .inl ⟨c, r, hr.symm, by rw [← hr, decode_encodeChar_append]⟩
      · refine .inr ⟨by simp, fun c hc => hpre ⟨c, hc⟩, ?_⟩
        have hnone : ((b :: bs).take 4).toByteArray.utf8DecodeChar? 0 = none := by
          rw [Option.eq_none_iff_forall_ne_some]
          intro c hc
          obtain ⟨r, hr⟩ := ByteArray.exists_of_utf8DecodeChar?_eq_some hc
          refine hpre ⟨c, ?_⟩
          have hlist : (b :: bs).take 4 = String.utf8EncodeChar c ++ r.data.toList := by
            have := congrArg (fun x => x.data.toList) hr
            simpa using this
          exact (hlist ▸ List.prefix_append _ _).trans (List.take_prefix 4 _)
        obtain ⟨n, hn⟩ := Nat.exists_eq_succ_of_ne_zero
          (Nat.ne_of_gt (illFormedLength_pos (b :: bs)))
        rw [decode, decodeFrom, hnone]
        simp only [decodeFrom_drop]
        rw [hn]
        rfl
/-- **ASCII bytes are never swallowed**: the text in front of one is the
same whatever follows. -/
theorem decode_append_ascii (a : List UInt8) {y : UInt8} (hy : y < 0x80) (bs : List UInt8) :
    decode (a ++ y :: bs) = decode a ++ decode (y :: bs) := by
  induction hn : a.length using Nat.strongRecOn generalizing a with
  | ind n ih =>
      have hcut : ∀ k, 0 < k → k ≤ a.length →
          decode ((a ++ y :: bs).drop k) = decode (a.drop k) ++ decode (y :: bs) := by
        intro k hpos hle
        rw [List.drop_append_of_le_length hle]
        exact ih (a.drop k).length (by rw [List.length_drop]; omega) (a.drop k) rfl
      rcases decode_cases a with rfl | ⟨c, r, ha, hdec⟩ | ⟨hne, hno, hdec⟩
      · rfl
      · have hlen : 0 < (String.utf8EncodeChar c).length :=
          List.length_pos_iff.mpr String.utf8EncodeChar_ne_nil
        have hrest := hcut _ hlen (by rw [ha, List.length_append]; omega)
        rw [hdec, ha, List.append_assoc, decode_encodeChar_append]
        rw [ha, List.append_assoc, List.drop_left, List.drop_left] at hrest
        rw [hrest, List.cons_append]
      · rcases decode_cases (a ++ y :: bs) with hnil | ⟨c, r, heq, -⟩ | ⟨-, -, hdec'⟩
        · exact absurd hnil (by simp)
        · -- a character that is not in `a` alone would have `y` in its tail
          have hpre : String.utf8EncodeChar c <+: a ++ y :: bs := by
            rw [heq]
            exact List.prefix_append _ _
          have hgt : a.length < (String.utf8EncodeChar c).length := by
            by_contra hle
            exact hno c (List.prefix_of_prefix_length_le hpre (List.prefix_append a _) (by omega))
          obtain ⟨t, ht⟩ := List.prefix_of_prefix_length_le (List.prefix_append a (y :: bs)) hpre
            (Nat.le_of_lt hgt)
          rw [← ht, List.append_assoc, List.append_cancel_left_eq] at heq
          rw [← ht, List.length_append] at hgt
          obtain ⟨x, a', rfl⟩ := List.exists_cons_of_ne_nil hne
          have hmem : y ∈ (String.utf8EncodeChar c).tail := by
            cases t with
            | nil => exact absurd hgt (by simp)
            | cons z t =>
                rw [← ht, (List.cons.inj heq).1]
                simp
          exact absurd (le_of_mem_tail_utf8EncodeChar hmem) (UInt8.not_le.mpr hy)
        · obtain ⟨hsame, hle⟩ := illFormedLength_append hne hy bs
          rw [hdec', hsame, hdec, hcut _ (illFormedLength_pos a) hle, List.cons_append]

/-- An ASCII character of the text stands in the bytes, and the text
goes on behind it. -/
theorem exists_of_decode_eq {l : List UInt8} {p r : List Char} {c : Char} (hc : isAscii c = true)
    (h : decode l = p ++ c :: r) :
    ∃ a b, l = a ++ c.val.toUInt8 :: b ∧ decode b = r ∧ (p = [] → a = []) := by
  have hrepl : c ≠ '�' := by
    rintro rfl
    exact absurd hc (by decide)
  induction hn : l.length using Nat.strongRecOn generalizing l p with
  | ind n ih =>
      rcases decode_cases l with rfl | ⟨c', l', hl, hdec⟩ | ⟨hne, -, hdec⟩
      · cases p <;> cases h
      · rw [hdec] at h
        cases p with
        | nil =>
            obtain ⟨rfl, hr⟩ := List.cons.inj h
            refine ⟨[], l', ?_, hr, fun _ => rfl⟩
            rw [hl, utf8EncodeChar_of_isAscii hc]
            rfl
        | cons d p =>
            have hlen : 0 < (String.utf8EncodeChar c').length :=
              List.length_pos_iff.mpr String.utf8EncodeChar_ne_nil
            obtain ⟨a, b, rfl, hb, -⟩ := ih l'.length
              (by rw [← hn, hl, List.length_append]; omega) (List.cons.inj h).2 rfl
            exact ⟨String.utf8EncodeChar c' ++ a, b, by rw [hl, List.append_assoc], hb,
              fun hnil => by cases hnil⟩
      · rw [hdec] at h
        cases p with
        | nil => exact absurd (List.cons.inj h).1.symm hrepl
        | cons d p =>
            have hpos := illFormedLength_pos l
            have hll := List.length_pos_iff.mpr hne
            obtain ⟨a, b, hab, hb, -⟩ := ih (l.drop (illFormedLength l)).length
              (by rw [List.length_drop]; omega) (List.cons.inj h).2 rfl
            refine ⟨l.take (illFormedLength l) ++ a, b, ?_, hb, fun hnil => by cases hnil⟩
            rw [List.append_assoc, ← hab, List.take_append_drop]

/-! ## Writing into a buffer -/

/-- The whole characters of a text that fit in `n` bytes, encoded. -/
def encodeFitting : Nat → List Char → List UInt8
  | _, [] => []
  | n, c :: cs =>
      if c.utf8Size ≤ n then String.utf8EncodeChar c ++ encodeFitting (n - c.utf8Size) cs
      else []

/-- `buf` after the text was written at its start. -/
def write (buf : List UInt8) (cs : List Char) : List UInt8 :=
  encodeFitting buf.length cs ++ buf.drop (encodeFitting buf.length cs).length

theorem encodeFitting_length_le (n : Nat) (cs : List Char) : (encodeFitting n cs).length ≤ n := by
  induction cs generalizing n with
  | nil => exact Nat.zero_le n
  | cons c cs ih =>
      rw [encodeFitting]
      split
      · have := ih (n - c.utf8Size)
        rw [List.length_append, String.length_utf8EncodeChar]
        omega
      · exact Nat.zero_le n

/-- What fits is the encoding of a beginning of the text. -/
theorem exists_encodeFitting_eq (n : Nat) (cs : List Char) :
    ∃ p, p <+: cs ∧ encodeFitting n cs = encode p := by
  induction cs generalizing n with
  | nil => exact ⟨[], List.nil_prefix, rfl⟩
  | cons c cs ih =>
      rw [encodeFitting]
      split
      · obtain ⟨p, hp, heq⟩ := ih (n - c.utf8Size)
        exact ⟨c :: p, List.prefix_cons_inj c |>.mpr hp, by rw [heq, encode_cons]⟩
      · exact ⟨[], List.nil_prefix, rfl⟩

theorem encodeFitting_of_le {n : Nat} {cs : List Char} (h : (encode cs).length ≤ n) :
    encodeFitting n cs = encode cs := by
  induction cs generalizing n with
  | nil => rfl
  | cons c cs ih =>
      rw [encode_cons, List.length_append, String.length_utf8EncodeChar] at h
      rw [encodeFitting, if_pos (by omega), ih (by omega), encode_cons]

/-- Writing never changes the size of a buffer. -/
theorem write_length (buf : List UInt8) (cs : List Char) : (write buf cs).length = buf.length := by
  have := encodeFitting_length_le buf.length cs
  rw [write, List.length_append, List.length_drop]
  omega

/-- A buffer of exactly the size of the text holds the text. -/
theorem write_of_length_eq {buf : List UInt8} {cs : List Char}
    (h : buf.length = (encode cs).length) : write buf cs = encode cs := by
  rw [write, encodeFitting_of_le (by omega), List.drop_of_length_le (by omega), List.append_nil]

end Lib.Utf8
