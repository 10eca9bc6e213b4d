/-
ProxyBroker.Server.AddHeadersTheorems — which headers `addHeaders` keeps.

A header line is read with a pattern made of its own name, a list that
grows tells which names are there, and the buffer of the block has one
byte for each UTF-16 code unit. So a line may be read wrongly (a name
with one of `$ * + ^ |` is more than its text), be no pattern at all (`*`
has nothing to repeat), be dropped (a second line of a name) or be cut off
(a text that is not ASCII).

* `collect_eq` — the list `addHeaders` collects, line by line;
* `reads_plain` — a name without those characters reads its value;
* `readable_of_tail` — a block that looks right is read line by line as it
  should be, because a part of a line cannot look like another line
  (`cut_eq`);
* `keeps_iff_of_ascii`, `keeps_iff_of_reads` — when the block is the right
  one.
-/
import ProxyBroker.Server.HeaderLines

namespace ProxyBroker.Server

open Lib

namespace RequestHelper

/-! ## Reading a line -/

/-- The value `addHeaders` reads; there is none if the name's pattern is a
syntax error. -/
def valueRead (l : HeaderLine) : Option Text :=
  (RegExp.compile (pattern l.name)).map
    (fun p => JsText.trim (Utf16.decode (RegExp.removeFirst p (Utf16.encode l.text))))

/-- The name of a line is a pattern. -/
def Compiles (l : HeaderLine) : Prop := (RegExp.compile (pattern l.name)).isSome

instance (l : HeaderLine) : Decidable (Compiles l) := inferInstanceAs (Decidable (_ = true))

/-- The pattern finds the name and its colon, or what else leaves the
value. -/
def Reads (l : HeaderLine) : Prop := valueRead l = some (JsText.trim l.value)

instance (l : HeaderLine) : Decidable (Reads l) := inferInstanceAs (Decidable (_ = _))

theorem removeName_eq (engine : Text → Text → Option Text) (l : HeaderLine) :
    (removeName engine l.name l.text).map JsText.trim = valueRead l := by
  rw [removeName, if_pos l.token.2, Option.map_map]
  rfl

theorem compile_pattern {name : Text} (h : ∀ c ∈ name, RegExp.isMeta c = false ∧ c ≠ '\\') :
    RegExp.compile (pattern name) = some [.start :: RegExp.literal name] := by
  have hrest : RegExp.compile (pattern name) =
      (RegExp.compile (name ++ ['\\', 's', '*', ':'])).map (RegExp.Pattern.prepend [.start]) := by
    unfold pattern
    rw [RegExp.compile]
  rw [hrest, RegExp.compile_literal h]
  rfl

/-- **A plain name reads its value**, whatever the value is. -/
theorem reads_plain (l : HeaderLine) (h : l.name.any RegExp.isMeta = false) : Reads l := by
  have hplain : ∀ c ∈ l.name, RegExp.isMeta c = false ∧ c ≠ '\\' := by
    intro c hc
    rw [List.any_eq_false] at h
    exact ⟨by simpa using h c hc, (l.name_facts hc).2.2.2.2⟩
  have hcolon : Utf16.encode l.text =
      Utf16.encode l.name ++ ':'.toNat :: Utf16.encode (' ' :: l.value) := by
    rw [HeaderLine.text, Utf16.encode_append, Utf16.encode_cons,
      Utf16.encodeChar_of_isAscii (by decide)]
    rfl
  have hlen : (Utf16.encode l.name).length = l.name.length := by
    rw [Utf16.encode_of_ascii l.name_ascii, List.length_map]
  have hmatch : RegExp.matchAt [.start :: RegExp.literal l.name] 0 (Utf16.encode l.text) =
      some (l.name.length + 1) := by
    have hliteral := RegExp.matchTerms_literal l.name_ascii 0 (Utf16.encode (' ' :: l.value))
    rw [← hcolon, Nat.zero_add] at hliteral
    have hstart : RegExp.matchTerms (.start :: RegExp.literal l.name) 0 (Utf16.encode l.text) =
        RegExp.matchTerms (RegExp.literal l.name) 0 (Utf16.encode l.text) := rfl
    rw [RegExp.matchAt, List.findSome?_cons, hstart, hliteral]
  have hdrop : (Utf16.encode l.text).drop (l.name.length + 1) =
      Utf16.encode (' ' :: l.value) := by
    rw [hcolon, ← hlen, ← List.drop_drop, List.drop_left]
    rfl
  have hspace : JsText.trim (' ' :: l.value) = JsText.trim l.value := by
    have hstart : JsText.trimStart (' ' :: l.value) = JsText.trimStart l.value :=
      List.dropWhile_cons_of_pos (by decide)
    rw [JsText.trim, hstart]
    rfl
  unfold Reads valueRead
  rw [compile_pattern hplain, Option.map_some, RegExp.removeFirst, RegExp.exec_of_matchAt hmatch]
  dsimp only
  rw [List.take_zero, List.nil_append, hdrop, Utf16.decode_encode, hspace]

/-- `a+b: x` is not read: its pattern asks for a `b` behind the `a`. -/
example : ¬ Reads ⟨['a', '+', 'b'], ['x'], by decide, by decide⟩ := by decide +kernel

/-- What is read of an ASCII line is a part cut out of it, and trimmed. -/
theorem exists_cut_of_valueRead (l : HeaderLine) (hascii : l.value.all Utf8.isAscii = true)
    {v : Text} (h : valueRead l = some v) :
    ∃ u m w, l.text = u ++ m ++ w ∧ v = JsText.trim (u ++ w) := by
  obtain ⟨p, -, rfl⟩ := Option.map_eq_some_iff.mp h
  unfold RegExp.removeFirst
  cases hexec : RegExp.exec p (Utf16.encode l.text) with
  | none => exact ⟨l.text, [], [], by simp, by simp [Utf16.decode_encode]⟩
  | some ij =>
      obtain ⟨i, j⟩ := ij
      have hle := RegExp.exec_ge hexec
      refine ⟨l.text.take i, (l.text.drop i).take (j - i), l.text.drop j, ?_, ?_⟩
      · have hdrop : l.text.drop j = (l.text.drop i).drop (j - i) := by
          rw [List.drop_drop]
          congr 1
          omega
        rw [hdrop, List.append_assoc, List.take_append_drop, List.take_append_drop]
      · dsimp only
        rw [Utf16.decode_cut (l.text_ascii hascii)]

/-! ## The list that is collected -/

def sameName (a b : Text) : Bool := toLowerCase a == toLowerCase b

/-- The lines whose names are not yet there. -/
def kept (names : List Text) : List HeaderLine → List HeaderLine
  | [] => []
  | l :: ls =>
      if names.any (fun a => sameName a l.name) then kept names ls
      else l :: kept (names ++ [l.name]) ls

def entryRead (l : HeaderLine) : Text × Text := (l.name, (valueRead l).getD [])

/-- The locale compares the names as ASCII does. -/
def Agrees (host : Host) (names : List Text) (lines : List HeaderLine) : Prop :=
  ∀ a ∈ names ++ lines.map (·.name), ∀ l ∈ lines,
    (host.toLocaleLowerCase a == host.toLocaleLowerCase l.name) = sameName a l.name

theorem agrees_ascii (names : List Text) (lines : List HeaderLine) :
    Agrees Host.ascii names lines := fun _ _ _ _ => rfl

theorem addLine_eq (host : Host) (engine : Text → Text → Option Text) (x : List (Text × Text))
    (l : HeaderLine) :
    addLine host engine x l.text =
      match valueRead l with
      | none => .error .syntaxError
      | some v =>
          if x.any (fun e => host.toLocaleLowerCase e.1 == host.toLocaleLowerCase l.name) then .ok x
          else .ok (x ++ [(l.name, v)]) := by
  unfold addLine
  rw [← removeName_eq engine l, l.name_read]
  dsimp only
  cases removeName engine l.name l.text <;> rfl

theorem compiles_iff (l : HeaderLine) : Compiles l ↔ ∃ v, valueRead l = some v := by
  rw [Compiles, ← Option.isSome_iff_exists, valueRead, Option.isSome_map]

variable {host : Host} {engine : Text → Text → Option Text}

theorem foldlM_addLine {x : List (Text × Text)} {ls : List HeaderLine}
    (hagree : Agrees host (x.map Prod.fst) ls) :
    (ls.map HeaderLine.text).foldlM (addLine host engine) x =
      if ∀ l ∈ ls, Compiles l then .ok (x ++ (kept (x.map Prod.fst) ls).map entryRead)
      else .error .syntaxError := by
  induction ls generalizing x with
  | nil => simp [kept, pure, Except.pure]
  | cons l ls ih =>
      have hthere : x.any (fun e => host.toLocaleLowerCase e.1 == host.toLocaleLowerCase l.name) =
          (x.map Prod.fst).any (fun a => sameName a l.name) := by
        have heach : ∀ e ∈ x, (host.toLocaleLowerCase e.1 == host.toLocaleLowerCase l.name) =
            sameName e.1 l.name := fun e he =>
          hagree e.1 (List.mem_append_left _ (List.mem_map_of_mem he)) l List.mem_cons_self
        rw [List.any_map, Bool.eq_iff_iff, List.any_eq_true, List.any_eq_true]
        exact ⟨fun ⟨e, he, heq⟩ => ⟨e, he, (heach e he).symm.trans heq⟩,
          fun ⟨e, he, heq⟩ => ⟨e, he, (heach e he).trans heq⟩⟩
      rw [List.map_cons, List.foldlM_cons, addLine_eq]
      cases hv : valueRead l with
      | none =>
          have hno : ¬ ∀ l' ∈ l :: ls, Compiles l' := by
            intro hall
            obtain ⟨v, hv'⟩ := (compiles_iff l).mp (hall l List.mem_cons_self)
            rw [hv] at hv'
            cases hv'
          rw [if_neg hno]
          rfl
      | some v =>
          have hcompiles : (∀ l' ∈ l :: ls, Compiles l') ↔ ∀ l' ∈ ls, Compiles l' := by
            rw [List.forall_mem_cons]
            exact and_iff_right ((compiles_iff l).mpr ⟨v, hv⟩)
          simp only [hcompiles, hthere]
          unfold kept
          by_cases hany : (x.map Prod.fst).any (fun a => sameName a l.name) = true
          · rw [if_pos hany, if_pos hany]
            refine ih (fun a ha l' hl' => hagree a ?_ l' (List.mem_cons_of_mem _ hl'))
            rw [List.map_cons]
            exact (List.mem_append.mp ha).elim (List.mem_append_left _)
              (fun hin => List.mem_append_right _ (List.mem_cons_of_mem _ hin))
          · rw [if_neg hany, if_neg hany]
            have hnext := ih (x := x ++ [(l.name, v)]) (by
              intro a ha l' hl'
              refine hagree a ?_ l' (List.mem_cons_of_mem _ hl')
              simpa using ha)
            refine Eq.trans hnext ?_
            simp [entryRead, hv]

/-- The lines of a block are its lines. -/
theorem collect_eq {req : RequestData} {headers : List (Text × Text)} {lines : List HeaderLine}
    (hreq : req.headers = HeaderLine.block lines)
    (hagree : Agrees host ((entries headers).map Prod.fst) lines) :
    collect host engine req headers =
      if ∀ l ∈ lines, Compiles l then
        .ok (entries headers ++ (kept ((entries headers).map Prod.fst) lines).map entryRead)
      else .error .syntaxError := by
  rw [← foldlM_addLine hagree, collect, hreq]
  cases lines with
  | nil => rfl
  | cons l ls =>
      have hsplit : splitSeq crlfText (crlfText.intercalate ((l :: ls).map HeaderLine.text)) =
          (l :: ls).map HeaderLine.text := by
        refine splitSeq_intercalate (x := '\r') (t := ['\n']) (by decide) (by simp) ?_
        intro t ht
        obtain ⟨l', -, rfl⟩ := List.mem_map.mp ht
        exact l'.text_line
      simp only [HeaderLine.block]
      rw [Utf8.decode_encode, hsplit]

/-! ## What the block should be -/

/-- The name of the line is not among the entries that are set. -/
def survives (names : List Text) (l : HeaderLine) : Bool := !names.any (fun a => sameName a l.name)

def entryOf (l : HeaderLine) : Text × Text := (l.name, JsText.trim l.value)

/-- The entries, then every line whose name is not among them. -/
def expected (headers : List (Text × Text)) (lines : List HeaderLine) : Text :=
  headStr (entries headers ++
    (lines.filter (survives ((entries headers).map Prod.fst))).map entryOf)

/-- `addHeaders` returns, with the block as it should be. -/
def Keeps (host : Host) (engine : Text → Text → Option Text) (req : RequestData)
    (headers : List (Text × Text)) (lines : List HeaderLine) : Prop :=
  ∃ block, addHeaders host engine req headers = .ok { req with headers := some block } ∧
    Utf8.decode block = expected headers lines

/-- No two of the lines have the same name. -/
def Distinct (lines : List HeaderLine) : Prop := (lines.map (fun l => toLowerCase l.name)).Nodup

instance (lines : List HeaderLine) : Decidable (Distinct lines) :=
  inferInstanceAs (Decidable (List.Nodup _))

/-- Every name is a pattern, and of the lines that are to be kept no two
have the same name and each reads its value. -/
structure Readable (headers : List (Text × Text)) (lines : List HeaderLine) : Prop where
  compiles : ∀ l ∈ lines, Compiles l
  distinct : Distinct (lines.filter (survives ((entries headers).map Prod.fst)))
  reads : ∀ l ∈ lines.filter (survives ((entries headers).map Prod.fst)), Reads l

theorem sameName_iff {a b : Text} : sameName a b = true ↔ toLowerCase a = toLowerCase b :=
  beq_iff_eq

theorem kept_eq {names added : List Text} {ls : List HeaderLine}
    (hdistinct : Distinct (ls.filter (survives names)))
    (hadded : ∀ l ∈ ls.filter (survives names), ∀ a ∈ added, sameName a l.name = false) :
    kept (names ++ added) ls = ls.filter (survives names) := by
  induction ls generalizing added with
  | nil => rfl
  | cons l ls ih =>
      unfold kept
      cases hl : survives names l with
      | false =>
          rw [List.filter_cons_of_neg (by simp [hl])] at hdistinct hadded ⊢
          have hthere : (names ++ added).any (fun a => sameName a l.name) = true := by
            rw [survives, Bool.not_eq_false'] at hl
            rw [List.any_append, hl, Bool.true_or]
          rw [if_pos hthere]
          exact ih hdistinct hadded
      | true =>
          rw [List.filter_cons_of_pos hl] at hdistinct hadded ⊢
          have hnew : ¬ (names ++ added).any (fun a => sameName a l.name) = true := by
            rw [survives, Bool.not_eq_true'] at hl
            have hno : added.any (fun a => sameName a l.name) = false := by
              rw [List.any_eq_false]
              exact fun a ha => by simpa using hadded l List.mem_cons_self a ha
            rw [List.any_append, hl, hno]
            simp
          obtain ⟨hfirst, hrest⟩ := List.nodup_cons.mp hdistinct
          rw [if_neg hnew, List.append_assoc]
          congr 1
          refine ih hrest ?_
          intro l' hl' a ha
          rcases List.mem_append.mp ha with hin | hin
          · exact hadded l' (List.mem_cons_of_mem _ hl') a hin
          · rw [List.mem_singleton] at hin
            subst hin
            rw [Bool.eq_false_iff, ne_eq, sameName_iff]
            intro heq
            exact hfirst (List.mem_map.mpr ⟨l', hl', heq.symm⟩)

/-! ### Texts of entries -/

def render (e : Text × Text) : Text := e.1 ++ [':', ' '] ++ e.2

/-- The entries behind another. -/
def tail (x : List (Text × Text)) : Text := x.flatMap (fun e => crlfText ++ render e)

theorem tail_cons (e : Text × Text) (x : List (Text × Text)) :
    tail (e :: x) = crlfText ++ (render e ++ tail x) := by
  rw [tail, List.flatMap_cons, List.append_assoc]
  rfl

theorem headStr_cons (e : Text × Text) (x : List (Text × Text)) :
    headStr (e :: x) = render e ++ tail x := by
  induction x generalizing e with
  | nil => simp [headStr, render, tail]
  | cons e' x ih =>
      have hnext := ih e'
      rw [headStr, List.map_cons] at hnext
      rw [headStr, List.map_cons, List.map_cons, List.intercalate_cons_cons, hnext, tail, tail,
        List.flatMap_cons]
      simp [render]

theorem tail_eq (x : List (Text × Text)) :
    tail x = if x = [] then [] else crlfText ++ headStr x := by
  cases x with
  | nil => rfl
  | cons e x => simp [headStr_cons, tail]

theorem tail_of_headStr {x y z : List (Text × Text)} (h : headStr (x ++ y) = headStr (x ++ z)) :
    tail y = tail z := by
  cases x with
  | nil =>
      have hnil : ∀ w : List (Text × Text), headStr w = [] ↔ w = [] := by
        intro w
        cases w with
        | nil => simp [headStr]
        | cons e w => simp [headStr_cons, render]
      rw [List.nil_append, List.nil_append] at h
      have hiff : y = [] ↔ z = [] := by rw [← hnil, h, hnil]
      simp only [tail_eq, h, hiff]
  | cons e x =>
      rw [List.cons_append, List.cons_append, headStr_cons, headStr_cons, tail, tail,
        List.flatMap_append, List.flatMap_append] at h
      exact List.append_cancel_left (List.append_cancel_left h)

theorem follows_tail (x : List (Text × Text)) : Follows (tail x) := by
  rw [tail_eq]
  by_cases hx : x = []
  · rw [if_pos hx]
    exact .inl rfl
  · rw [if_neg hx]
    exact .inr ⟨_, rfl⟩

theorem survives_of_mem_kept {names : List Text} {ls : List HeaderLine} {l : HeaderLine}
    (h : l ∈ kept names ls) : names.any (fun a => sameName a l.name) = false := by
  induction ls generalizing names with
  | nil => cases h
  | cons c ls ih =>
      unfold kept at h
      split at h
      · exact ih h
      · next hc =>
        rcases List.mem_cons.mp h with rfl | hin
        · simpa using hc
        · have hboth := ih hin
          rw [List.any_append, Bool.or_eq_false_iff] at hboth
          exact hboth.1

/-- A line that has to come next has come, and has been read as it should
be. -/
theorem readable_of_tail_cons {names : List Text} {l : HeaderLine} {ls : List HeaderLine}
    {rest : List (Text × Text)} (hcompiles : Compiles l) (hascii : l.value.all Utf8.isAscii = true)
    (h : tail ((kept names (l :: ls)).map entryRead) = tail (entryOf l :: rest)) :
    names.any (fun a => sameName a l.name) = false ∧ Reads l ∧
      tail ((kept (names ++ [l.name]) ls).map entryRead) = tail rest := by
  unfold kept at h
  rw [tail_cons] at h
  by_cases hthere : names.any (fun a => sameName a l.name) = true
  · -- the line was dropped, so another line has to have its name
    exfalso
    rw [if_pos hthere] at h
    cases hk : kept names ls with
    | nil =>
        rw [hk] at h
        simp [tail, crlfText] at h
    | cons k ks =>
        have hnew := survives_of_mem_kept (l := k) (by rw [hk]; exact List.mem_cons_self)
        rw [hk, List.map_cons, tail_cons] at h
        have hline := List.append_cancel_left h
        have hname := congrArg (JsText.beforeFirst ':') hline
        simp only [render, entryRead, entryOf, List.append_assoc, List.cons_append,
          JsText.beforeFirst_append_cons k.colon_notMem,
          JsText.beforeFirst_append_cons l.colon_notMem] at hname
        rw [hname, hthere] at hnew
        cases hnew
  · rw [if_neg hthere, List.map_cons, tail_cons] at h
    obtain ⟨v, hv⟩ := (compiles_iff l).mp hcompiles
    obtain ⟨u, m, w, htext, rfl⟩ := exists_cut_of_valueRead l hascii hv
    have hvalues : JsText.trim (u ++ w) ++ tail ((kept (names ++ [l.name]) ls).map entryRead) =
        JsText.trim l.value ++ tail rest := by
      simpa [render, entryRead, entryOf, hv] using h
    have hvalue := cut_eq l htext (follows_tail _) (follows_tail _) hvalues
    rw [hvalue] at hvalues hv
    exact ⟨Bool.not_eq_true _ ▸ hthere, hv, List.append_cancel_left hvalues⟩

/-- **Line by line**: if the lines that were read look, together, like the
lines that should be there, they are these lines. -/
theorem readable_of_tail {names added : List Text} {ls : List HeaderLine}
    (hcompiles : ∀ l ∈ ls, Compiles l) (hascii : ∀ l ∈ ls, l.value.all Utf8.isAscii = true)
    (h : tail ((kept (names ++ added) ls).map entryRead) =
      tail ((ls.filter (survives names)).map entryOf)) :
    Distinct (ls.filter (survives names)) ∧ (∀ l ∈ ls.filter (survives names), Reads l) ∧
      ∀ l ∈ ls.filter (survives names), ∀ a ∈ added, sameName a l.name = false := by
  induction ls generalizing added with
  | nil => simp [Distinct]
  | cons l ls ih =>
      obtain ⟨hl, hrest⟩ := List.forall_mem_cons.mp hcompiles
      obtain ⟨hl', hrest'⟩ := List.forall_mem_cons.mp hascii
      cases hsurvives : survives names l with
      | false =>
          have hthere : (names ++ added).any (fun a => sameName a l.name) = true := by
            rw [survives, Bool.not_eq_false'] at hsurvives
            rw [List.any_append, hsurvives, Bool.true_or]
          unfold kept at h
          rw [if_pos hthere, List.filter_cons_of_neg (by simp [hsurvives])] at h
          rw [List.filter_cons_of_neg (by simp [hsurvives])]
          exact ih hrest hrest' h
      | true =>
          rw [List.filter_cons_of_pos hsurvives] at h ⊢
          obtain ⟨hnew, hread, hbehind⟩ := readable_of_tail_cons hl hl' h
          rw [List.append_assoc] at hbehind
          obtain ⟨hdistinct, hreads, hadded⟩ := ih hrest hrest' hbehind
          rw [List.any_append, Bool.or_eq_false_iff, List.any_eq_false, List.any_eq_false] at hnew
          refine ⟨List.nodup_cons.mpr ⟨?_, hdistinct⟩, List.forall_mem_cons.mpr ⟨hread, hreads⟩,
            List.forall_mem_cons.mpr ⟨?_, ?_⟩⟩
          · intro hmem
            obtain ⟨l', hin, heq⟩ := List.mem_map.mp hmem
            have hno := hadded l' hin l.name (List.mem_append_right _ (List.mem_singleton.mpr rfl))
            rw [Bool.eq_false_iff] at hno
            exact hno (sameName_iff.mpr heq.symm)
          · exact fun a ha => by simpa using hnew.2 a ha
          · exact fun l' hin a ha => hadded l' hin a (List.mem_append_left _ ha)

/-! ## The block -/

variable {req : RequestData} {headers : List (Text × Text)} {lines : List HeaderLine}

/-- What is collected is what should be there. -/
theorem collect_of_readable (hreq : req.headers = HeaderLine.block lines)
    (hagree : Agrees host ((entries headers).map Prod.fst) lines) (h : Readable headers lines) :
    ∃ x, collect host engine req headers = .ok x ∧ headStr x = expected headers lines := by
  refine ⟨_, by rw [collect_eq hreq hagree, if_pos h.compiles], ?_⟩
  have hkept := @kept_eq _ [] _ h.distinct (fun _ _ a ha => by cases ha)
  rw [List.append_nil] at hkept
  rw [expected, hkept]
  congr 2
  refine List.map_congr_left (fun l hl => ?_)
  have hread := h.reads l hl
  rw [Reads] at hread
  rw [entryRead, entryOf, hread, Option.getD_some]

theorem writeBlock_of_ascii (host : Host) {t : Text} (h : t.all Utf8.isAscii = true) :
    writeBlock host t = Utf8.encode t := by
  rw [writeBlock, Utf8.write_of_length_eq]
  rw [host.uninitialised_length, (Utf8.units_eq_length_encode_iff t).mpr h]

/-- A text that is not ASCII does not fit: in a buffer of zeros it is not
what is read back. -/
theorem ascii_of_writeBlock {host : Host} (hzero : ∀ n, host.uninitialised n = List.replicate n 0)
    {t : Text} (h : Utf8.decode (writeBlock host t) = t) : t.all Utf8.isAscii = true := by
  obtain ⟨p, -, hp⟩ := Utf8.exists_encodeFitting_eq (Utf8.units t) t
  have hle := Utf8.encodeFitting_length_le (Utf8.units t) t
  have hzeros : ∀ n, List.replicate n (0 : UInt8) = Utf8.encode (List.replicate n '\x00') := by
    intro n
    induction n with
    | zero => rfl
    | succ n ih =>
        rw [List.replicate_succ, List.replicate_succ, Utf8.encode_cons, ← ih,
          Utf8.utf8EncodeChar_of_isAscii (by decide)]
        rfl
  rw [writeBlock, Utf8.write, host.uninitialised_length, hzero, List.drop_replicate, hp, hzeros,
    ← Utf8.encode_append, Utf8.decode_encode] at h
  rw [← Utf8.units_eq_length_encode_iff]
  have hlen := congrArg (fun u => (Utf8.encode u).length) h
  simp only [Utf8.encode_append, ← hzeros, List.length_append, List.length_replicate] at hlen
  rw [hp] at hle
  omega

theorem addHeaders_of_collect {x : List (Text × Text)}
    (h : collect host engine req headers = .ok x) :
    addHeaders host engine req headers =
      .ok { req with headers := some (writeBlock host (headStr x)) } := by
  rw [addHeaders, h]
  rfl

/-- When the lines are readable, only the buffer can go wrong. -/
theorem keeps_iff_of_readable (hreq : req.headers = HeaderLine.block lines)
    (hagree : Agrees host ((entries headers).map Prod.fst) lines) (h : Readable headers lines) :
    Keeps host engine req headers lines ↔
      Utf8.decode (writeBlock host (expected headers lines)) = expected headers lines := by
  obtain ⟨x, hx, heq⟩ := @collect_of_readable _ engine _ _ _ hreq hagree h
  have hadd := addHeaders_of_collect hx
  rw [heq] at hadd
  constructor
  · rintro ⟨block, hblock, hdecode⟩
    rw [hadd, Except.ok.injEq, RequestData.mk.injEq] at hblock
    rw [Option.some.inj hblock.2.2.1, hdecode]
  · exact fun hdecode => ⟨_, hadd, hdecode⟩

/-- Readable lines are kept whatever is in the memory exactly if the block
is ASCII. -/
theorem keeps_iff_of_reads (hreq : req.headers = HeaderLine.block lines)
    (hagree : Agrees host ((entries headers).map Prod.fst) lines) (h : Readable headers lines) :
    (∀ memory : Host, memory.toLocaleLowerCase = host.toLocaleLowerCase →
        Keeps memory engine req headers lines) ↔
      (expected headers lines).all Utf8.isAscii = true := by
  have hagrees : ∀ memory : Host, memory.toLocaleLowerCase = host.toLocaleLowerCase →
      Agrees memory ((entries headers).map Prod.fst) lines := by
    intro memory hsame a ha l hl
    rw [hsame]
    exact hagree a ha l hl
  constructor
  · intro hall
    let zeros : Host :=
      { host with
        uninitialised := fun n => List.replicate n 0
        uninitialised_length := fun _ => List.length_replicate }
    exact @ascii_of_writeBlock zeros (fun _ => rfl) _
      ((keeps_iff_of_readable hreq (hagrees zeros rfl) h).mp (hall zeros rfl))
  · intro hascii memory hsame
    rw [keeps_iff_of_readable hreq (hagrees memory hsame) h, writeBlock_of_ascii memory hascii,
      Utf8.decode_encode]

/-- Everything the block is made of is ASCII. -/
structure AsciiData (headers : List (Text × Text)) (lines : List HeaderLine) : Prop where
  headers : ∀ e ∈ entries headers, e.1.all Utf8.isAscii = true ∧ e.2.all Utf8.isAscii = true
  lines : ∀ l ∈ lines, l.value.all Utf8.isAscii = true

theorem ascii_headStr {x : List (Text × Text)}
    (h : ∀ e ∈ x, e.1.all Utf8.isAscii = true ∧ e.2.all Utf8.isAscii = true) :
    (headStr x).all Utf8.isAscii = true := by
  have htail : ∀ y : List (Text × Text),
      (∀ e ∈ y, e.1.all Utf8.isAscii = true ∧ e.2.all Utf8.isAscii = true) →
      (tail y).all Utf8.isAscii = true := by
    intro y hy
    rw [tail, List.all_flatMap, List.all_eq_true]
    intro e he
    obtain ⟨h1, h2⟩ := hy e he
    simp only [render, List.all_append, h1, h2]
    decide
  cases x with
  | nil => rfl
  | cons e x =>
      obtain ⟨h1, h2⟩ := h e List.mem_cons_self
      have hrest := htail x (fun e' he' => h e' (List.mem_cons_of_mem _ he'))
      rw [headStr_cons, List.all_append, hrest]
      simp only [render, List.all_append, h1, h2]
      decide

theorem ascii_trim {t : Text} (h : t.all Utf8.isAscii = true) :
    (JsText.trim t).all Utf8.isAscii = true := by
  rw [List.all_eq_true] at h ⊢
  exact fun c hc => h c ((JsText.trim_isInfix t).subset hc)

theorem mem_of_mem_kept {names : List Text} {ls : List HeaderLine} {l : HeaderLine}
    (h : l ∈ kept names ls) : l ∈ ls := by
  induction ls generalizing names with
  | nil => cases h
  | cons c ls ih =>
      unfold kept at h
      split at h
      · exact List.mem_cons_of_mem _ (ih h)
      · rcases List.mem_cons.mp h with rfl | hin
        · exact List.mem_cons_self
        · exact List.mem_cons_of_mem _ (ih hin)

theorem ascii_entryRead (l : HeaderLine) (h : l.value.all Utf8.isAscii = true) :
    (entryRead l).1.all Utf8.isAscii = true ∧ (entryRead l).2.all Utf8.isAscii = true := by
  refine ⟨l.name_ascii, ?_⟩
  unfold entryRead
  cases hv : valueRead l with
  | none => rfl
  | some v =>
      obtain ⟨u, m, w, htext, rfl⟩ := exists_cut_of_valueRead l h hv
      have hall := l.text_ascii h
      refine ascii_trim ?_
      rw [htext, List.all_append, List.all_append, Bool.and_eq_true, Bool.and_eq_true] at hall
      rw [List.all_append, hall.1.1, hall.2]
      rfl

/-- **ASCII headers are kept exactly if they are readable.** -/
theorem keeps_iff_of_ascii (hreq : req.headers = HeaderLine.block lines)
    (hagree : Agrees host ((entries headers).map Prod.fst) lines)
    (hascii : AsciiData headers lines) :
    Keeps host engine req headers lines ↔ Readable headers lines := by
  constructor
  · rintro ⟨block, hblock, hdecode⟩
    have hcollect := @collect_eq _ engine _ _ _ hreq hagree
    by_cases hcompiles : ∀ l ∈ lines, Compiles l
    · rw [if_pos hcompiles] at hcollect
      rw [addHeaders_of_collect hcollect, Except.ok.injEq, RequestData.mk.injEq] at hblock
      have hread : (headStr (entries headers ++
          (kept ((entries headers).map Prod.fst) lines).map entryRead)).all Utf8.isAscii =
            true := by
        refine ascii_headStr (fun e he => ?_)
        rcases List.mem_append.mp he with hin | hin
        · exact hascii.headers e hin
        · obtain ⟨l, hl, rfl⟩ := List.mem_map.mp hin
          exact ascii_entryRead l (hascii.lines l (mem_of_mem_kept hl))
      rw [writeBlock_of_ascii host hread] at hblock
      rw [← Option.some.inj hblock.2.2.1, Utf8.decode_encode, expected] at hdecode
      have htail := tail_of_headStr hdecode
      obtain ⟨hdistinct, hreads, -⟩ :=
        @readable_of_tail ((entries headers).map Prod.fst) [] lines hcompiles hascii.lines
          (by rw [List.append_nil]; exact htail)
      exact ⟨hcompiles, hdistinct, hreads⟩
    · rw [if_neg hcompiles] at hcollect
      rw [addHeaders, hcollect] at hblock
      cases hblock
  · intro h
    have hexpected : (expected headers lines).all Utf8.isAscii = true := by
      refine ascii_headStr (fun e he => ?_)
      rcases List.mem_append.mp he with hin | hin
      · exact hascii.headers e hin
      · obtain ⟨l, hl, rfl⟩ := List.mem_map.mp hin
        exact ⟨l.name_ascii, ascii_trim (hascii.lines l (List.mem_of_mem_filter hl))⟩
    exact (keeps_iff_of_reads hreq hagree h).mpr hexpected host rfl

/-- No name is more than its text. -/
def Plain (lines : List HeaderLine) : Prop := ∀ l ∈ lines, l.name.any RegExp.isMeta = false

instance (lines : List HeaderLine) : Decidable (Plain lines) := List.decidableBAll _ _

theorem readable_of_plain (hplain : Plain lines)
    (hdistinct : Distinct (lines.filter (survives ((entries headers).map Prod.fst)))) :
    Readable headers lines where
  compiles l hl := (compiles_iff l).mpr ⟨_, reads_plain l (hplain l hl)⟩
  distinct := hdistinct
  reads l hl := reads_plain l (hplain l (List.mem_of_mem_filter hl))

/-- **When `addHeaders` keeps all other headers**: if the names are plain,
those that are to be kept distinct and the block ASCII; for ASCII data
exactly if the lines are readable; for readable lines exactly if the
block is ASCII. -/
theorem addHeaders_keeps (hreq : req.headers = HeaderLine.block lines)
    (hagree : Agrees host ((entries headers).map Prod.fst) lines) :
    (Plain lines → Distinct (lines.filter (survives ((entries headers).map Prod.fst))) →
        (expected headers lines).all Utf8.isAscii = true →
        Keeps host engine req headers lines) ∧
      (AsciiData headers lines →
        (Keeps host engine req headers lines ↔ Readable headers lines)) ∧
      (Readable headers lines →
        ((∀ memory : Host, memory.toLocaleLowerCase = host.toLocaleLowerCase →
            Keeps memory engine req headers lines) ↔
          (expected headers lines).all Utf8.isAscii = true)) :=
  ⟨fun hplain hdistinct hascii =>
      (keeps_iff_of_reads hreq hagree (readable_of_plain hplain hdistinct)).mpr hascii host rfl,
    keeps_iff_of_ascii hreq hagree, keeps_iff_of_reads hreq hagree⟩

/-- A host, an entry that is set and a line that stays. -/
def hostLine : HeaderLine := ⟨['H', 'o', 's', 't'], ['a'], by decide, by decide⟩

def acceptLine (value : Char) : HeaderLine :=
  ⟨['A', 'c', 'c', 'e', 'p', 't'], [value], by decide, by
    rw [indexOf?_eq_none_iff (by decide)]
    intro i hi
    have hlen := prefix_drop_length (by decide) hi
    simp [crlfText] at hlen⟩

theorem addHeaders_keeps_plain :
    Keeps Host.ascii (fun _ _ => none) { headers := HeaderLine.block [hostLine, acceptLine 'b'] }
      [(['H', 'o', 's', 't'], ['c']), (['V', 'i', 'a'], ['d'])] [hostLine, acceptLine 'b'] :=
  (@addHeaders_keeps Host.ascii (fun _ _ => none)
    { headers := HeaderLine.block [hostLine, acceptLine 'b'] }
    [(['H', 'o', 's', 't'], ['c']), (['V', 'i', 'a'], ['d'])] [hostLine, acceptLine 'b'] rfl
    (agrees_ascii _ _)).1 (by decide) (by decide) (by decide)

/-- The second of two lines of a name is dropped. -/
theorem not_keeps_twoLines :
    ¬ Keeps Host.ascii (fun _ _ => none)
      { headers := HeaderLine.block [acceptLine 'a', acceptLine 'b'] } []
      [acceptLine 'a', acceptLine 'b'] := by
  intro h
  have hascii : AsciiData [] [acceptLine 'a', acceptLine 'b'] :=
    ⟨by simp [entries], by decide⟩
  have hdistinct := ((keeps_iff_of_ascii rfl (agrees_ascii _ _) hascii).mp h).distinct
  exact absurd hdistinct (by decide)

end RequestHelper

end ProxyBroker.Server
