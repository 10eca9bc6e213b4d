/-
ProxyBroker.Server.HeaderLines — header lines, and what is left of one
when a part is cut out of it.

A name is an HTTP token, so it has no white space, no line end and no
colon. A value is any text of one line.

* `trim_value_ne` — a trimmed value is not its own line, cut off;
* `cut_eq` — what is left of a line, trimmed and with other lines behind
  it, looks like the value only if it is the value.
-/
import ProxyBroker.Server.HttpHeaderTransform
import ProxyBroker.Server.Head

namespace ProxyBroker.Server

open Lib

/-! ## Header lines -/

/-- `name: value` -/
structure HeaderLine where
  name : Text
  value : Text
  token : name ≠ [] ∧ name.all isTokenChar = true
  oneLine : indexOf? crlfText value = none

namespace HeaderLine

def text (l : HeaderLine) : Text := l.name ++ ':' :: ' ' :: l.value

/-- The header block of a request with these lines. -/
def block : List HeaderLine → Option Bytes
  | [] => none
  | l :: ls => some (Utf8.encode (crlfText.intercalate ((l :: ls).map text)))

end HeaderLine

/-- Letters and digits end at the latest with `z`. -/
theorem isAlphanum_ascii {c : Char} (h : c.isAlphanum = true) : Utf8.isAscii c = true := by
  have hranges : c.isUpper = true ∨ c.isLower = true ∨ c.isDigit = true := by
    rcases Bool.or_eq_true_iff.mp h with halpha | hdigit
    · exact (Bool.or_eq_true_iff.mp halpha).imp_right .inl
    · exact .inr (.inr hdigit)
  have hle : ∀ last : UInt32, last.toNat ≤ 0x7F → c.val ≤ last → Utf8.isAscii c = true :=
    fun _ hlast hc => decide_eq_true (Nat.le_trans (UInt32.le_iff_toNat_le.mp hc) hlast)
  rcases hranges with hupper | hlower | hdigit
  · exact hle _ (by decide) (of_decide_eq_true hupper).2
  · exact hle _ (by decide) (of_decide_eq_true (Bool.and_eq_true_iff.mp hlower).2)
  · exact hle _ (by decide) (of_decide_eq_true (Bool.and_eq_true_iff.mp hdigit).2)

theorem isTokenChar_ascii {c : Char} (h : isTokenChar c = true) : Utf8.isAscii c = true := by
  unfold isTokenChar at h
  rcases Bool.or_eq_true_iff.mp h with halnum | hin
  · exact isAlphanum_ascii halnum
  · have hall : "!#$%&'*+-.^_`|~".toList.all Utf8.isAscii = true := by decide
    exact List.all_eq_true.mp hall c (List.contains_iff_mem.mp hin)

/-- A token has no white space, no line end, no colon and no backslash. -/
theorem isTokenChar_facts {c : Char} (h : isTokenChar c = true) :
    JsText.isSpace c = false ∧ c ≠ ':' ∧ c ≠ '\r' ∧ c ≠ ' ' ∧ c ≠ '\\' := by
  have hall : ∀ n < 128, isTokenChar (Char.ofNat n) = true →
      JsText.isSpace (Char.ofNat n) = false ∧ Char.ofNat n ≠ ':' ∧ Char.ofNat n ≠ '\r' ∧
        Char.ofNat n ≠ ' ' ∧ Char.ofNat n ≠ '\\' := by decide +kernel
  have hlt : c.toNat < 128 := Nat.lt_succ_of_le (of_decide_eq_true (isTokenChar_ascii h))
  have hc := hall c.toNat hlt
  rw [Char.ofNat_toNat] at hc
  exact hc h

namespace HeaderLine

variable (l : HeaderLine)

theorem name_ascii : l.name.all Utf8.isAscii = true := by
  rw [List.all_eq_true]
  exact fun c hc => isTokenChar_ascii (List.all_eq_true.mp l.token.2 c hc)

theorem text_ascii (h : l.value.all Utf8.isAscii = true) : l.text.all Utf8.isAscii = true := by
  rw [text, List.all_append, List.all_cons, List.all_cons, l.name_ascii, h]
  rfl

theorem name_facts {c : Char} (hc : c ∈ l.name) :
    JsText.isSpace c = false ∧ c ≠ ':' ∧ c ≠ '\r' ∧ c ≠ ' ' ∧ c ≠ '\\' :=
  isTokenChar_facts (List.all_eq_true.mp l.token.2 c hc)

theorem colon_notMem : ':' ∉ l.name := fun h => (l.name_facts h).2.1 rfl

theorem cr_notMem : '\r' ∉ l.name ++ [':', ' '] := by
  intro h
  rcases List.mem_append.mp h with hin | hin
  · exact (l.name_facts hin).2.2.1 rfl
  · simp at hin

theorem text_eq : l.text = (l.name ++ [':', ' ']) ++ l.value := by
  simp [text]

/-- The text is one line. -/
theorem text_line : indexOf? crlfText l.text = none := by
  have hsearch := indexOf?_append_of_not_mem (x := '\r') (t := ['\n']) l.cr_notMem l.value
  rw [text_eq]
  exact hsearch.trans (by rw [show indexOf? ['\r', '\n'] l.value = none from l.oneLine]; rfl)

theorem trim_name : JsText.trim l.name = l.name :=
  JsText.trim_of_nonspace (fun _ hc => (l.name_facts hc).1)

/-- The piece in front of the colon. -/
theorem name_read : JsText.trim ((JsText.splitLimit ':' 1 l.text).headD []) = l.name := by
  have hhead := JsText.splitOn_head? ':' l.text
  have hname : l.text.takeWhile (· ≠ ':') = l.name :=
    JsText.beforeFirst_append_cons l.colon_notMem _
  rw [hname] at hhead
  obtain ⟨p, ps, hps⟩ := List.exists_cons_of_ne_nil (List.splitOn_ne_nil ':' l.text)
  rw [hps, List.head?_cons, Option.some.injEq] at hhead
  rw [JsText.splitLimit, hps, List.take_succ_cons, List.headD_cons, hhead, trim_name]

end HeaderLine

namespace RequestHelper

/-! ## What is left of a line -/

/-- **The heart of the matter**: no value is, trimmed, its line up to a
place in front of a carriage return. The line would carry its own
beginning round to its end. -/
theorem trim_value_ne (l : HeaderLine) {z r b s : Text} {d : Char}
    (hvalue : l.value = z ++ ('\r' :: r ++ b) ++ d :: s) (hd : JsText.isSpace d = false)
    (hs : ∀ x ∈ s, JsText.isSpace x = true) :
    JsText.trim l.value ≠ l.name ++ [':', ' '] ++ z := by
  intro h
  rw [hvalue, JsText.trim_append_cons _ _ hd, JsText.trimEnd_of_isSpace hs] at h
  by_cases hz : ∀ x ∈ z, JsText.isSpace x = true
  · have hspace : ∀ x ∈ ' ' :: z, JsText.isSpace x = true :=
      List.forall_mem_cons.mpr ⟨by decide, hz⟩
    have hlast :
        JsText.trimStart (z ++ ('\r' :: r ++ b)) ++ [d] = (l.name ++ [':']) ++ (' ' :: z) := by
      rw [h]
      simp
    rw [JsText.isSpace_of_concat hlast hspace (List.cons_ne_nil _ _)] at hd
    cases hd
  · -- `z` is some white space and a rest
    obtain ⟨x, hx, hxspace⟩ : ∃ x ∈ z, JsText.isSpace x = false := by simpa using hz
    have hzsplit : z.takeWhile JsText.isSpace ++ JsText.trimStart z = z :=
      List.takeWhile_append_dropWhile
    have hround : JsText.trimStart z ++ ('\r' :: (r ++ b ++ [d])) =
        l.name ++ [':', ' '] ++ z.takeWhile JsText.isSpace ++ JsText.trimStart z := by
      rw [List.append_assoc _ (z.takeWhile _), hzsplit, ← h, JsText.trimStart_append hx hxspace]
      simp
    obtain ⟨e, f, hfront, hback⟩ := append_conj hround
    have hspaces : ∀ x ∈ z.takeWhile JsText.isSpace, JsText.isSpace x = true :=
      fun x hx => List.mem_takeWhile_imp hx
    cases f with
    | nil =>
        -- the line would begin with the carriage return
        rw [List.append_nil] at hfront
        rw [List.nil_append, ← hfront] at hback
        obtain ⟨c, name, hname⟩ := List.exists_cons_of_ne_nil l.token.1
        rw [hname] at hback
        have hc : c ∈ l.name := by simp [hname]
        exact (l.name_facts hc).2.2.1 (List.cons.inj hback).1.symm
    | cons c f =>
        -- the carriage return is among the spaces, so `e` ends with one
        obtain ⟨rfl, hend⟩ := List.cons.inj hback
        rcases List.append_eq_append_iff.mp hfront with ⟨a, he, hrest⟩ | ⟨a, he, hrest⟩
        · have hends : ∀ x ∈ ' ' :: a, JsText.isSpace x = true := by
            refine List.forall_mem_cons.mpr ⟨by decide, fun x hx => hspaces x ?_⟩
            rw [hrest]
            exact List.mem_append_left _ hx
          have hlast : r ++ b ++ [d] = (f ++ (l.name ++ [':'])) ++ (' ' :: a) := by
            rw [hend, he]
            simp
          rw [JsText.isSpace_of_concat hlast hends (List.cons_ne_nil _ _)] at hd
          cases hd
        · cases a with
          | nil =>
              rw [List.append_nil] at he
              have hlast : r ++ b ++ [d] = (f ++ (l.name ++ [':'])) ++ [' '] := by
                rw [hend, ← he]
                simp
              rw [JsText.isSpace_of_concat hlast (List.forall_mem_singleton.mpr (by decide))
                (List.cons_ne_nil _ _)] at hd
              cases hd
          | cons c' a =>
              refine l.cr_notMem ?_
              rw [he]
              obtain ⟨rfl, -⟩ := List.cons.inj hrest
              simp

/-- Nothing, or another line. -/
def Follows (r : Text) : Prop := r = [] ∨ ∃ r', r = crlfText ++ r'

theorem eq_of_follows {p q r r' : Text} (hp : indexOf? crlfText p = none)
    (hq : indexOf? crlfText q = none) (hr : Follows r) (hr' : Follows r')
    (h : p ++ r = q ++ r') : p = q := by
  -- a line end on one side only
  have hone : ∀ {p q u : Text}, indexOf? crlfText p = none → p ≠ q ++ (crlfText ++ u) := by
    intro p q u hp hpq
    have hinfix : crlfText <:+: p := ⟨q, u, by rw [hpq, List.append_assoc]⟩
    have hself := indexOf?_eq_none_of_isInfix (by decide) hinfix hp
    revert hself
    decide
  rcases hr with rfl | ⟨u, rfl⟩ <;> rcases hr' with rfl | ⟨u', rfl⟩
  · simpa using h
  · rw [List.append_nil] at h
    exact absurd h (hone hp)
  · rw [List.append_nil] at h
    exact absurd h.symm (hone hq)
  · exact (append_sep_inj (x := '\r') (t := ['\n']) (by decide) hp hq h).1

theorem trim_value_line (l : HeaderLine) : indexOf? crlfText (JsText.trim l.value) = none :=
  indexOf?_eq_none_of_isInfix (by decide) (JsText.trim_isInfix _) l.oneLine

/-- A line end that comes from cutting a part out of a line lies behind
the name. -/
theorem exists_of_cut (l : HeaderLine) {u m w : Text} (htext : l.text = u ++ m ++ w)
    (h : indexOf? crlfText (u ++ w) ≠ none) :
    ∃ z w', u ++ w = (l.name ++ [':', ' '] ++ z) ++ (crlfText ++ w') ∧
      indexOf? crlfText (l.name ++ [':', ' '] ++ z) = none ∧
      l.value = z ++ '\r' :: (m ++ '\n' :: w') := by
  have hinfix : ∀ t, t <:+: l.text → indexOf? crlfText t = none :=
    fun t ht => indexOf?_eq_none_of_isInfix (by decide) ht l.text_line
  have hu : indexOf? crlfText u = none := hinfix u ⟨[], m ++ w, by rw [htext]; simp⟩
  have hw : indexOf? crlfText w = none := hinfix w ⟨u ++ m, [], by rw [htext]; simp⟩
  obtain ⟨u', w', rfl, rfl⟩ := exists_of_indexOf?_append hu hw h
  have hu' : indexOf? crlfText u' = none :=
    hinfix u' ⟨[], '\r' :: m ++ '\n' :: w', by rw [htext]; simp⟩
  have hsplit : l.name ++ [':', ' '] ++ l.value = u' ++ ('\r' :: (m ++ '\n' :: w')) := by
    rw [← l.text_eq, htext]
    simp
  -- the name and its colon have no carriage return
  obtain ⟨z, rfl⟩ : ∃ z, u' = l.name ++ [':', ' '] ++ z := by
    rcases List.append_eq_append_iff.mp hsplit with ⟨a, ha, -⟩ | ⟨a, ha, hrest⟩
    · exact ⟨a, ha⟩
    · cases a with
      | nil => exact ⟨[], by rw [ha]; simp⟩
      | cons c a =>
          refine absurd ?_ l.cr_notMem
          rw [ha, ← (List.cons.inj hrest).1]
          simp
  refine ⟨z, w', by simp [crlfText], hu', ?_⟩
  rw [List.append_assoc (l.name ++ _) z] at hsplit
  exact List.append_cancel_left hsplit

/-- **What a pattern leaves of a line is its value, or shows**: whatever
part of the line is cut out, the rest, trimmed, does not look like the
value even with other lines behind it, unless it is the value. -/
theorem cut_eq (l : HeaderLine) {u m w : Text} (htext : l.text = u ++ m ++ w) {r r' : Text}
    (hr : Follows r) (hr' : Follows r')
    (h : JsText.trim (u ++ w) ++ r = JsText.trim l.value ++ r') :
    JsText.trim (u ++ w) = JsText.trim l.value := by
  cases hline : indexOf? crlfText (JsText.trim (u ++ w)) with
  | none => exact eq_of_follows hline (trim_value_line l) hr hr' h
  | some i =>
      exfalso
      have huw : indexOf? crlfText (u ++ w) ≠ none := by
        intro hnone
        rw [indexOf?_eq_none_of_isInfix (by decide) (JsText.trim_isInfix _) hnone] at hline
        cases hline
      obtain ⟨z, w', heq, hz, hvalue⟩ := exists_of_cut l htext huw
      obtain ⟨c, name, hname⟩ := List.exists_cons_of_ne_nil l.token.1
      have hc : JsText.isSpace c = false := (l.name_facts (by simp [hname])).1
      have hhead : u ++ w = c :: (name ++ [':', ' '] ++ z ++ (crlfText ++ w')) := by
        rw [heq, hname]
        rfl
      obtain ⟨q, d, s, hqd, hd, hs, htrim⟩ :=
        JsText.trim_concat hc (name ++ [':', ' '] ++ z ++ (crlfText ++ w'))
      rw [← hhead] at hqd htrim
      rw [htrim] at hline h
      -- the first line end, of what is left and of the line
      obtain ⟨a, b, hfirst, ha⟩ := exists_of_indexOf?_some (by decide) hline
      have hwhole :
          a ++ (crlfText ++ (b ++ s)) = (l.name ++ [':', ' '] ++ z) ++ (crlfText ++ w') := by
        rw [← heq, hqd, List.append_cons, hfirst]
        simp
      obtain ⟨rfl, rfl⟩ := append_sep_inj (x := '\r') (t := ['\n']) (by decide) ha hz hwhole
      have hvalueline : l.name ++ [':', ' '] ++ z = JsText.trim l.value := by
        refine eq_of_follows ha (trim_value_line l) (.inr ⟨b ++ r, rfl⟩) hr' ?_
        rw [← h, hfirst]
        simp
      -- what stands behind it does not end with a space
      rcases List.eq_nil_or_concat b with rfl | ⟨b', d', rfl⟩
      · have hlast : q ++ [d] = (l.name ++ [':', ' '] ++ z ++ ['\r']) ++ ['\n'] := by
          rw [hfirst]
          simp [crlfText]
        rw [JsText.isSpace_of_concat hlast (List.forall_mem_singleton.mpr (by decide))
          (List.cons_ne_nil _ _)] at hd
        cases hd
      · have hlast : (l.name ++ [':', ' '] ++ z ++ crlfText ++ b') ++ [d'] = q ++ [d] := by
          rw [hfirst]
          simp
        obtain ⟨-, hdd⟩ := List.append_inj' hlast rfl
        cases hdd
        refine trim_value_ne l (z := z) (r := m) (b := '\n' :: b') (s := s) (d := d) ?_ hd hs
          hvalueline.symm
        rw [hvalue]
        simp

end RequestHelper

end ProxyBroker.Server
