/-
ProxyBroker.Server.Head — `onData` in closed form.

`onData` has three behaviours, and one lemma gives each of them:

* `onData_tls` — the handle gave up on the stream, or the chunk looks
  like TLS: nothing is kept;
* `onData_later` — there is data already: the chunk is appended to
  `data`, and to `body` when a head was parsed;
* `onData_first` — the first chunk: `head?` cuts it into request line,
  header block and body, and the handle is `firstState` of the cut, or
  the call throws because a header line has no colon.

`head?` is stated on the bytes (first CRLF strictly before the first
CRLFCRLF), `headerEnd`, the buffer sizes and the copies are gone: they
are discharged here, once, by `head?_buffers`. `feed_later` folds the
later chunks, and the theorems about whole streams start from it.

The parts of a head make up the chunk (`Head.join_of_head?`), and its
header lines are the same cut in bytes and in text (`Head.lines_eq`).
-/
import ProxyBroker.Server.SocketHandle

namespace ProxyBroker.Server

open Lib

/-! ## The cut of a complete head -/

/-- A first chunk whose head is complete. -/
structure Head where
  query : Bytes
  block : Bytes
  body : Bytes
  deriving DecidableEq, Repr

/-- Request line, header block and body of a chunk whose first CRLF lies
strictly before its first CRLFCRLF. -/
def head? (d : Bytes) : Option Head :=
  match indexOf? crlf d, indexOf? crlfcrlf d with
  | some i, some j =>
      if i < j then some ⟨d.take i, (d.drop (i + 2)).take (j - (i + 2)), d.drop (j + 4)⟩
      else none
  | _, _ => none

def Head.lines (hd : Head) : List Text := splitSeq crlfText (Utf8.decode hd.block)

/-- Every header line has a colon. -/
def Head.Colons (hd : Head) : Prop := ∀ x ∈ hd.lines, ':' ∈ x

instance (hd : Head) : Decidable hd.Colons := List.decidableBAll _ _

theorem head?_eq_some_iff {d : Bytes} {hd : Head} :
    head? d = some hd ↔ ∃ i j, indexOf? crlf d = some i ∧ indexOf? crlfcrlf d = some j ∧
      i < j ∧ hd = ⟨d.take i, (d.drop (i + 2)).take (j - (i + 2)), d.drop (j + 4)⟩ := by
  unfold head?
  cases hi : indexOf? crlf d with
  | none => simp
  | some i =>
      cases hj : indexOf? crlfcrlf d with
      | none => simp
      | some j => by_cases hlt : i < j <;> simp [hlt, eq_comm]

/-- The first CRLF ends before the first CRLFCRLF begins. -/
theorem crlf_add_two_le {d : Bytes} {i j : Nat} (hi : indexOf? crlf d = some i)
    (hj : indexOf? crlfcrlf d = some j) (hlt : i < j) : i + 2 ≤ j := by
  have hne : j ≠ i + 1 := by
    rintro rfl
    obtain ⟨r, hr⟩ := ((indexOf?_eq_some_iff (by decide)).mp hi).1
    obtain ⟨r', hr'⟩ := ((indexOf?_eq_some_iff (by decide)).mp hj).1
    -- the byte behind the CR is an LF by the one, a CR by the other
    rw [← List.drop_drop, ← hr] at hr'
    simp [crlf, crlfcrlf] at hr'
  omega

/-- **A head that is complete in the first chunk is the head of the
stream**: it is cut the same way, and what follows goes to the body. -/
theorem head?_append {c : Bytes} {hd : Head} (h : head? c = some hd) (r : Bytes) :
    head? (c ++ r) = some { hd with body := hd.body ++ r } := by
  obtain ⟨i, j, hi, hj, hlt, rfl⟩ := head?_eq_some_iff.mp h
  have hilen := indexOf?_length_le (by decide) hi
  have hjlen := indexOf?_length_le (by decide) hj
  simp only [crlf, crlfcrlf, List.length_cons, List.length_nil] at hilen hjlen
  refine head?_eq_some_iff.mpr ⟨i, j, indexOf?_append (by decide) hi r,
    indexOf?_append (by decide) hj r, hlt, ?_⟩
  rw [List.take_append_of_le_length (by omega), List.drop_append_of_le_length (by omega),
    List.drop_append_of_le_length (by omega), List.take_append_of_le_length]
  rw [List.length_drop]
  omega

/-- The body is the end of the chunk. -/
theorem head?_split {d : Bytes} {hd : Head} (h : head? d = some hd) :
    ∃ p, d = p ++ hd.body := by
  obtain ⟨i, j, hi, hj, hlt, rfl⟩ := head?_eq_some_iff.mp h
  exact ⟨d.take (j + 4), (List.take_append_drop (j + 4) d).symm⟩

/-- A head with its line ends. -/
def Head.join (hd : Head) : Bytes :=
  hd.query ++ crlf ++ (hd.block ++ crlf ++ crlf) ++ hd.body

/-- What is cut out of a buffer is the buffer. -/
theorem Head.join_of_head? {d : Bytes} {hd : Head} (h : head? d = some hd) : hd.join = d := by
  obtain ⟨i, j, hi, hj, hlt, rfl⟩ := head?_eq_some_iff.mp h
  have hle := crlf_add_two_le hi hj hlt
  obtain ⟨r, hr⟩ := ((indexOf?_eq_some_iff (by decide)).mp hi).1
  obtain ⟨r', hr'⟩ := ((indexOf?_eq_some_iff (by decide)).mp hj).1
  -- behind the first CRLF, and behind the first CRLFCRLF
  have hafter : d.drop (i + 2) = r := by
    rw [← List.drop_drop, ← hr]
    rfl
  have hbody : d.drop (j + 4) = r' := by
    rw [← List.drop_drop, ← hr']
    rfl
  have hblock : r.drop (j - (i + 2)) = crlfcrlf ++ r' := by
    rw [← hafter, List.drop_drop, hr']
    congr 1
    omega
  have hsplit : r.take (j - (i + 2)) ++ (crlfcrlf ++ r') = r := by
    rw [← hblock, List.take_append_drop]
  have hwhole : d.take i ++ (crlf ++ r) = d := by
    rw [hr, List.take_append_drop]
  calc Head.join ⟨d.take i, (d.drop (i + 2)).take (j - (i + 2)), d.drop (j + 4)⟩
      = d.take i ++ (crlf ++ (r.take (j - (i + 2)) ++ (crlfcrlf ++ r'))) := by
        simp [Head.join, hafter, hbody, crlf, crlfcrlf]
    _ = d := by rw [hsplit, hwhole]

/-! ## Lines of bytes and lines of text -/

theorem crlf_eq_encode : crlf = Utf8.encode crlfText := by decide

theorem decode_append_crlf (l r : Bytes) :
    Utf8.decode (l ++ (crlf ++ r)) = Utf8.decode l ++ (crlfText ++ Utf8.decode r) := by
  change Utf8.decode (l ++ 0x0D :: 0x0A :: r) = _
  rw [Utf8.decode_append_ascii l (by decide)]
  change Utf8.decode l ++ Utf8.decode (crlf ++ r) = _
  rw [crlf_eq_encode, Utf8.decode_encode_append]

theorem decode_intercalate (lines : List Bytes) :
    Utf8.decode (crlf.intercalate lines) = crlfText.intercalate (lines.map Utf8.decode) := by
  induction lines with
  | nil => rfl
  | cons l lines ih =>
      cases lines with
      | nil => simp
      | cons l' lines =>
          rw [List.intercalate_cons_cons, List.append_assoc, decode_append_crlf, ih]
          simp [List.intercalate_cons_cons]

/-- A line of bytes is a line of text. -/
theorem decode_line {l : Bytes} (hl : indexOf? crlf l = none) :
    indexOf? crlfText (Utf8.decode l) = none := by
  rw [indexOf?_eq_none_iff (by decide)]
  rintro i ⟨r, hr⟩
  have hdec : Utf8.decode l = (Utf8.decode l).take i ++ '\r' :: '\n' :: r := by
    conv_lhs => rw [← List.take_append_drop i (Utf8.decode l), ← hr]
    rfl
  obtain ⟨a, b, rfl, hb, -⟩ := Utf8.exists_of_decode_eq (by decide) hdec
  obtain ⟨a', b', rfl, -, hnil⟩ := Utf8.exists_of_decode_eq (p := []) (by decide) hb
  rw [hnil rfl] at hl
  refine (indexOf?_eq_none_iff (by decide)).mp hl a.length ?_
  rw [List.drop_left]
  exact ⟨b', rfl⟩

/-- The header lines as they came. -/
def Head.byteLines (hd : Head) : List Bytes := splitSeq crlf hd.block

theorem Head.lines_eq (hd : Head) : hd.lines = hd.byteLines.map Utf8.decode := by
  have hlines : ∀ l ∈ hd.byteLines.map Utf8.decode, indexOf? crlfText l = none := by
    intro l hl
    obtain ⟨b, hb, rfl⟩ := List.mem_map.mp hl
    exact decode_line (not_sep_of_mem_splitSeq (by decide) hb)
  have hpos : hd.byteLines ≠ [] := splitSeq_ne_nil (by decide) hd.block
  have hne : hd.byteLines.map Utf8.decode ≠ [] := by simpa using hpos
  rw [← splitSeq_intercalate (x := '\r') (t := ['\n']) (by decide) hne hlines]
  change _ = splitSeq crlfText (crlfText.intercalate (hd.byteLines.map Utf8.decode))
  rw [← decode_intercalate, byteLines, intercalate_splitSeq (by decide)]
  rfl

namespace SocketHandle

/-! ## Buffers of the right size -/

theorem copy_eq {source target : Bytes} {s e : Nat}
    (hlen : target.length = e - s) (he : e ≤ source.length) :
    copy source target s e = (source.drop s).take (e - s) := by
  have hpart : ((source.drop s).take (e - s)).length = e - s := by
    rw [List.length_take, List.length_drop]
    omega
  have htake : ((source.drop s).take (e - s)).take target.length = (source.drop s).take (e - s) :=
    List.take_of_length_le (by omega)
  unfold copy
  rw [htake]
  show _ ++ target.drop _ = _
  rw [hpart, ← hlen, List.drop_length, List.append_nil]

theorem allocUnsafe_ofNat (host : Host) (n : Nat) :
    allocUnsafe host (n : Int) = .ok (host.uninitialised n) := by
  simp [allocUnsafe]

/-- Allocate and copy: the slice, whatever the memory held before. -/
theorem alloc_copy (host : Host) {source : Bytes} {s e : Nat} (he : e ≤ source.length) :
    copy source (host.uninitialised (e - s)) s e = (source.drop s).take (e - s) :=
  copy_eq (host.uninitialised_length _) he

/-! ## Header lines -/

/-- What a header line with a colon is read as. The value stops at the
second colon. -/
def readLine (host : Host) (x : Text) : Header where
  key := host.toLocaleLowerCase (JsText.trim (JsText.beforeFirst ':' x))
  orgKey := JsText.trim (JsText.beforeFirst ':' x)
  value := JsText.trim ((JsText.afterFirst ':' x).takeWhile (· ≠ ':'))

theorem parseHeaderLine_eq (host : Host) (x : Text) :
    parseHeaderLine host x = if ':' ∈ x then .ok (readLine host x) else .error .typeError := by
  by_cases h : ':' ∈ x
  · rw [if_pos h, parseHeaderLine]
    conv_lhs => rw [← JsText.beforeFirst_append_afterFirst h]
    rw [JsText.splitLimit_two (JsText.not_mem_beforeFirst ':' x)]
    rfl
  · rw [if_neg h, parseHeaderLine, JsText.splitLimit_of_not_mem h]

theorem mapM_parseHeaderLine (host : Host) (lines : List Text) :
    lines.mapM (parseHeaderLine host) =
      if ∀ x ∈ lines, ':' ∈ x then .ok (lines.map (readLine host)) else .error .typeError := by
  induction lines with
  | nil => rfl
  | cons x xs ih =>
      rw [List.mapM_cons, ih, parseHeaderLine_eq]
      by_cases hx : ':' ∈ x
      · rw [if_pos hx]
        by_cases hxs : ∀ y ∈ xs, ':' ∈ y
        · have hall : ∀ y ∈ x :: xs, ':' ∈ y := List.forall_mem_cons.mpr ⟨hx, hxs⟩
          rw [if_pos hxs, if_pos hall]
          rfl
        · have hall : ¬ ∀ y ∈ x :: xs, ':' ∈ y := fun h => hxs (List.forall_mem_cons.mp h).2
          rw [if_neg hxs, if_neg hall]
          rfl
      · have hall : ¬ ∀ y ∈ x :: xs, ':' ∈ y := fun h => hx (List.forall_mem_cons.mp h).1
        rw [if_neg hx, if_neg hall]
        rfl

/-! ## The three behaviours -/

theorem onData_tls (host : Host) {h : SocketHandle} {c : Bytes}
    (hc : (h.sslDetect || looksTls c) = true) :
    onData host h c = .ok { h with sslDetect := true } := by
  rw [onData, if_pos hc]

theorem onData_later (host : Host) {h : SocketHandle} {c old : Bytes}
    (hs : h.sslDetect = false) (hc : looksTls c = false) (hd : h.data = some old) :
    onData host h c =
      .ok { h with data := some (old ++ c), body := h.body.map (· ++ c) } := by
  simp [onData, hs, hc, hd]

/-- The handle after a first chunk with a complete head. -/
def firstState (host : Host) (h : SocketHandle) (d : Bytes) (hd : Head) : SocketHandle :=
  readStatus host hd.query
    { h with
      data := some d
      query := some hd.query
      headersList := h.headersList ++ hd.lines.map (readLine host)
      body := some hd.body }

theorem crlf_prefix : crlf <+: crlfcrlf := by decide

theorem bufIndexOf_lt_iff {d : Bytes} :
    (bufIndexOf crlf d < bufIndexOf crlfcrlf d ∧ 0 < bufIndexOf crlfcrlf d) ↔
      ∃ i j, indexOf? crlf d = some i ∧ indexOf? crlfcrlf d = some j ∧ i < j := by
  simp only [bufIndexOf]
  cases hj : indexOf? crlfcrlf d with
  | none => cases hi : indexOf? crlf d <;> simp
  | some j =>
      obtain ⟨i, hle, hi⟩ := indexOf?_of_prefix (by decide) (by decide) crlf_prefix hj
      simp only [hi]
      constructor
      · rintro ⟨hlt, -⟩
        exact ⟨i, j, rfl, rfl, by omega⟩
      · rintro ⟨i', j', hi', hj', hlt⟩
        cases hi'
        cases hj'
        omega

/-- An empty request line has no status, so the length test changes
nothing. -/
theorem readStatus_nil (host : Host) (h : SocketHandle) : readStatus host [] h = h := by
  simp [readStatus, Utf8.decode, Utf8.decodeFrom, statusMatch]

/-- The code reads a head exactly if there is one. -/
theorem bufIndexOf_lt_iff_head? {d : Bytes} :
    (bufIndexOf crlf d < bufIndexOf crlfcrlf d ∧ 0 < bufIndexOf crlfcrlf d) ↔
      ∃ hd, head? d = some hd := by
  rw [bufIndexOf_lt_iff]
  constructor
  · rintro ⟨i, j, hi, hj, hlt⟩
    exact ⟨_, head?_eq_some_iff.mpr ⟨i, j, hi, hj, hlt, rfl⟩⟩
  · rintro ⟨hd, hhd⟩
    obtain ⟨i, j, hi, hj, hlt, -⟩ := head?_eq_some_iff.mp hhd
    exact ⟨i, j, hi, hj, hlt⟩

/-- **The buffers of a head**: no size is negative, no copy is out of
range, and they come out as the parts of the head. -/
theorem head?_buffers (host : Host) {d : Bytes} {hd : Head} (h : head? d = some hd) :
    ∃ query headers body,
      allocUnsafe host (bufIndexOf crlf d) = .ok query ∧
      allocUnsafe host (bufIndexOf crlfcrlf d - bufIndexOf crlf d - 2) = .ok headers ∧
      allocUnsafe host (d.length - bufIndexOf crlfcrlf d - 4) = .ok body ∧
      copy d query 0 (bufIndexOf crlf d).toNat = hd.query ∧
      copy d headers (bufIndexOf crlf d + 2).toNat (bufIndexOf crlfcrlf d).toNat = hd.block ∧
      copy d body (bufIndexOf crlfcrlf d + 4).toNat d.length = hd.body := by
  obtain ⟨i, j, hi, hj, hlt, rfl⟩ := head?_eq_some_iff.mp h
  have h2 := crlf_add_two_le hi hj hlt
  have hilen := indexOf?_length_le (by decide) hi
  have hjlen := indexOf?_length_le (by decide) hj
  simp only [crlf, crlfcrlf, List.length_cons, List.length_nil] at hilen hjlen
  have hbi : bufIndexOf crlf d = (i : Int) := by simp [bufIndexOf, hi]
  have hbj : bufIndexOf crlfcrlf d = (j : Int) := by simp [bufIndexOf, hj]
  have e1 : ((j : Int) - i - 2) = ((j - (i + 2) : Nat) : Int) := by omega
  have e2 : ((d.length : Int) - j - 4) = ((d.length - (j + 4) : Nat) : Int) := by omega
  have e3 : ((i : Int) + 2).toNat = i + 2 := by omega
  have e4 : ((j : Int) + 4).toNat = j + 4 := by omega
  rw [hbi, hbj, e1, e2, e3, e4, Int.toNat_natCast, Int.toNat_natCast]
  refine ⟨_, _, _, allocUnsafe_ofNat host _, allocUnsafe_ofNat host _, allocUnsafe_ofNat host _,
    ?_, ?_, ?_⟩
  · simpa using alloc_copy host (s := 0) (show i ≤ d.length by omega)
  · exact alloc_copy host (by omega)
  · rw [alloc_copy host (Nat.le_refl _), List.take_of_length_le]
    rw [List.length_drop]

/-- **The first chunk.** The only way to throw is a header line without a
colon. -/
theorem onData_first (host : Host) {h : SocketHandle} {d : Bytes}
    (hs : h.sslDetect = false) (hc : looksTls d = false) (hd : h.data = none) :
    onData host h d =
      match head? d with
      | none => .ok { h with data := some d }
      | some hd => if hd.Colons then .ok (firstState host h d hd) else .error .typeError := by
  cases hhd : head? d with
  | none =>
      have hno : ¬ (bufIndexOf crlf d < bufIndexOf crlfcrlf d ∧ 0 < bufIndexOf crlfcrlf d) := by
        rw [bufIndexOf_lt_iff_head?]
        simp [hhd]
      simp [onData, hs, hc, hd, hno]
  | some hd' =>
      have hyes := bufIndexOf_lt_iff_head?.mpr ⟨hd', hhd⟩
      obtain ⟨query, headers, body, hq, hh, hb, hquery, hblock, hbody⟩ := head?_buffers host hhd
      rw [onData, if_neg (by simp [hs, hc]), hd]
      simp only [if_pos hyes]
      simp only [hq, hh, hb, hquery, hblock, hbody, mapM_parseHeaderLine, bind, Except.bind]
      by_cases hcol : hd'.Colons
      · have hcol' : ∀ x ∈ splitSeq crlfText (Utf8.decode hd'.block), ':' ∈ x := hcol
        rw [if_pos hcol', if_pos hcol]
        by_cases hpos : 0 < hd'.query.length
        · simp only [if_pos hpos]
          rfl
        · have hnil : hd'.query = [] := List.length_eq_zero_iff.mp (by omega)
          simp [hnil, firstState, Head.lines, readStatus_nil]
      · have hcol' : ¬ ∀ x ∈ splitSeq crlfText (Utf8.decode hd'.block), ':' ∈ x := hcol
        rw [if_neg hcol', if_neg hcol]

/-! ## The chunks behind the first -/

/-- The chunks up to the first one that looks like TLS: from there on
nothing is kept. -/
def kept (cs : List Bytes) : List Bytes := cs.takeWhile (fun c => !looksTls c)

theorem kept_eq_self {cs : List Bytes} (h : cs.any looksTls = false) : kept cs = cs := by
  rw [kept, List.takeWhile_eq_self_iff]
  intro c hc
  rw [List.any_eq_false] at h
  simpa using h c hc

theorem kept_append (cs ds : List Bytes) :
    kept (cs ++ ds) = if cs.any looksTls then kept cs else cs ++ kept ds := by
  induction cs with
  | nil => rfl
  | cons c cs ih =>
      cases hc : looksTls c with
      | true => simp [kept, hc]
      | false =>
          have hcons : ∀ l, kept (c :: l) = c :: kept l := by
            intro l
            simp [kept, hc]
          rw [List.cons_append, hcons, hcons, ih, List.any_cons, hc, Bool.false_or]
          split <;> rfl

/-- A dropped chunk has at least the byte it was dropped for. -/
theorem kept_length_lt {cs : List Bytes} (h : cs.any looksTls = true) :
    (kept cs).flatten.length < cs.flatten.length := by
  induction cs with
  | nil => cases h
  | cons c cs ih =>
      rw [List.any_cons, Bool.or_eq_true] at h
      cases hc : looksTls c with
      | true =>
          have hpos : 0 < c.length := by
            cases c with
            | nil => cases hc
            | cons a c => exact Nat.succ_pos _
          simp only [kept, List.takeWhile_cons, hc, List.flatten_cons, List.length_append]
          simp
          omega
      | false =>
          have := ih (h.resolve_left (by simp [hc]))
          simp only [kept] at this
          simp only [kept, List.takeWhile_cons, hc, List.flatten_cons, List.length_append]
          simpa using this

theorem kept_ne_flatten {cs : List Bytes} (h : cs.any looksTls = true) :
    (kept cs).flatten ≠ cs.flatten := by
  intro heq
  have hlt := kept_length_lt h
  rw [heq] at hlt
  exact Nat.lt_irrefl _ hlt

theorem feed_cons (host : Host) (h : SocketHandle) (c : Bytes) (cs : List Bytes) :
    feed host h (c :: cs) = (onData host h c).bind (fun h' => feed host h' cs) := rfl

theorem feed_tls (host : Host) {h : SocketHandle} (hs : h.sslDetect = true) (cs : List Bytes) :
    feed host h cs = .ok h := by
  induction cs with
  | nil => rfl
  | cons c cs ih =>
      have hh : { h with sslDetect := true } = h := by rw [← hs]
      rw [feed_cons, onData_tls host (by simp [hs]), hh]
      exact ih

/-- **The later chunks**, once there is data: appended to `data` and to
`body`, until one looks like TLS. -/
theorem feed_later (host : Host) {h : SocketHandle} {old : Bytes}
    (hs : h.sslDetect = false) (hd : h.data = some old) (cs : List Bytes) :
    feed host h cs = .ok { h with
      data := some (old ++ (kept cs).flatten)
      body := h.body.map (· ++ (kept cs).flatten)
      sslDetect := cs.any looksTls } := by
  induction cs generalizing h old with
  | nil =>
      cases hb : h.body <;> simp [feed, kept, pure, Except.pure, ← hs, ← hd, ← hb]
  | cons c cs ih =>
      rw [feed_cons]
      cases hc : looksTls c with
      | true =>
          rw [onData_tls host (by simp [hc])]
          show feed host { h with sslDetect := true } cs = _
          rw [feed_tls host rfl]
          cases hb : h.body <;> simp [kept, hc, ← hd, ← hb]
      | false =>
          rw [onData_later host hs hc hd]
          show feed host { h with data := some (old ++ c), body := h.body.map (· ++ c) } cs = _
          rw [ih (h := { h with data := some (old ++ c), body := h.body.map (· ++ c) }) hs rfl]
          cases hb : h.body <;> simp [kept, hc]

end SocketHandle

end ProxyBroker.Server
