/-
ProxyBroker.Proxy.ProxyAddress — `REGEX` of `Constants.ts`, the pattern a
proxy's address is recognised by:

  ^((http|https):\/\/)?(\d{1,3}\.\d{1,3}\.\d{1,3}\.\d{1,3}):?(\d{1,5})?$

`exec` is the backtracking search for it. `exec_eq_some_iff` says what it
finds. A text can be cut in several ways, since the colon may be missing
in front of a port: then the last octet takes all the digits it can hold
(`Greedy`), and the port gets the rest.
-/
import ProxyBroker.Lib.Matcher
import ProxyBroker.Lib.Decimal
import ProxyBroker.Server.SocketHandle

namespace ProxyBroker.Proxy

open Lib Lib.Matcher Server

namespace ProxyAddress

/-! ## The pattern -/

/-- What the parts of the pattern have matched. Its groups are `scheme`,
the quad and `port`. -/
structure Match where
  scheme : Option Text
  a : Text
  b : Text
  c : Text
  d : Text
  colon : Bool
  port : Option Text
  deriving DecidableEq, Repr

/-- The third group. -/
def Match.quad (g : Match) : Text := g.a ++ '.' :: (g.b ++ '.' :: (g.c ++ '.' :: g.d))

/-- `\d{1,3}` -/
def octet : Matcher Text := some1 Char.isDigit 2

/-- `((http|https):\/\/)?` -/
def scheme : Matcher (Option Text) :=
  opt (andThen (orElse (lit "http".toList) (lit "https".toList)) fun s =>
    andThen (lit "://".toList) fun _ => done s)

/-- `:?(\d{1,5})?$` behind the quad. -/
def ending (s : Option Text) (a b c d : Text) : Matcher Match :=
  andThen (opt (lit [':'])) fun colon =>
    andThen (opt (some1 Char.isDigit 4)) fun port =>
      andThen stop fun _ =>
        done { scheme := s, a := a, b := b, c := c, d := d, colon := colon.isSome, port := port }

def regex : Matcher Match :=
  andThen scheme fun s =>
    andThen octet fun a => andThen (lit ['.']) fun _ =>
      andThen octet fun b => andThen (lit ['.']) fun _ =>
        andThen octet fun c => andThen (lit ['.']) fun _ =>
          andThen octet fun d => ending s a b c d

/-- `v.match(REGEX)` -/
def exec (v : Text) : Option Match := first regex v

/-- `REGEX.test(v)` -/
def test (v : Text) : Bool := (exec v).isSome

/-! ## What it matches -/

/-- One to three digits. -/
structure IsOctet (s : Text) : Prop where
  ne_nil : s ≠ []
  length_le : s.length ≤ 3
  digits : Decimal.Digits s

/-- One to five digits. -/
structure IsPort (s : Text) : Prop where
  ne_nil : s ≠ []
  length_le : s.length ≤ 5
  digits : Decimal.Digits s

namespace Match

/-- The parts are what the pattern allows. -/
structure Formed (g : Match) : Prop where
  scheme : ∀ s, g.scheme = some s → s = "http".toList ∨ s = "https".toList
  a : IsOctet g.a
  b : IsOctet g.b
  c : IsOctet g.c
  d : IsOctet g.d
  port : ∀ p, g.port = some p → IsPort p

/-- A port without a colon gets only what the last octet leaves. -/
def Greedy (g : Match) : Prop := g.colon = false → g.port ≠ none → g.d.length = 3

def schemeText (s : Option Text) : Text := s.elim [] (· ++ "://".toList)

/-- The text behind the quad. -/
def tail (g : Match) : Text := (if g.colon then [':'] else []) ++ g.port.getD []

def text (g : Match) : Text := schemeText g.scheme ++ (g.quad ++ g.tail)

end Match

theorem mem_octet {s t r : Text} : (t, r) ∈ octet s ↔ s = t ++ r ∧ IsOctet t := by
  rw [octet, mem_some1]
  refine and_congr_right fun _ => ⟨?_, ?_⟩
  · rintro ⟨hne, hlength, hall⟩
    exact ⟨hne, hlength, hall⟩
  · rintro ⟨hne, hlength, hall⟩
    exact ⟨hne, hlength, hall⟩

theorem mem_scheme {s r : Text} {o : Option Text} :
    (o, r) ∈ scheme s ↔ s = Match.schemeText o ++ r ∧
      ∀ u, o = some u → u = "http".toList ∨ u = "https".toList := by
  simp only [scheme, mem_opt, mem_andThen, mem_orElse, mem_lit, mem_done]
  constructor
  · rintro (⟨u, rfl, v, t, hv, w, t', ⟨-, rfl⟩, rfl, rfl⟩ | ⟨rfl, rfl⟩)
    · rcases hv with ⟨rfl, rfl⟩ | ⟨rfl, rfl⟩
      · exact ⟨by simp [Match.schemeText], by simp⟩
      · exact ⟨by simp [Match.schemeText], by simp⟩
    · exact ⟨rfl, by simp⟩
  · rintro ⟨rfl, hscheme⟩
    cases o with
    | none => exact .inr ⟨rfl, rfl⟩
    | some u =>
        have htext : Match.schemeText (some u) ++ r = u ++ ("://".toList ++ r) :=
          List.append_assoc _ _ _
        refine .inl ⟨u, rfl, u, "://".toList ++ r, ?_, _, r, ⟨rfl, rfl⟩, rfl, rfl⟩
        rcases hscheme u rfl with rfl | rfl
        · exact .inl ⟨rfl, htext⟩
        · exact .inr ⟨rfl, htext⟩

theorem mem_ending {s : Option Text} {a b c d t r : Text} {g : Match} :
    (g, r) ∈ ending s a b c d t ↔
      (g.scheme = s ∧ g.a = a ∧ g.b = b ∧ g.c = c ∧ g.d = d) ∧ t = g.tail ∧
        (∀ p, g.port = some p → IsPort p) ∧ r = [] := by
  simp only [ending, mem_andThen, mem_opt, mem_lit, mem_some1, mem_stop, mem_done]
  constructor
  · rintro ⟨colon, t₁, hcolon, port, t₂, hport, -, t₃, ⟨rfl, rfl⟩, rfl, rfl⟩
    refine ⟨⟨rfl, rfl, rfl, rfl, rfl⟩, ?_, ?_, rfl⟩
    · rcases hcolon with ⟨_, rfl, rfl, rfl⟩ | ⟨rfl, rfl⟩ <;>
        rcases hport with ⟨p, rfl, rfl, -⟩ | ⟨rfl, rfl⟩ <;> simp [Match.tail]
    · rintro p rfl
      rcases hport with ⟨q, hq, rfl, hne, hlength, hall⟩ | ⟨h, -⟩
      · cases hq
        exact ⟨hne, hlength, hall⟩
      · cases h
  · rintro ⟨⟨rfl, rfl, rfl, rfl, rfl⟩, rfl, hport, rfl⟩
    obtain ⟨s, a, b, c, d, colon, port⟩ := g
    refine ⟨if colon then some [':'] else none, port.getD [], ?_, port, [], ?_, (), [],
      ⟨rfl, rfl⟩, ?_, rfl⟩
    · cases colon
      · exact .inr ⟨rfl, rfl⟩
      · exact .inl ⟨_, rfl, rfl, rfl⟩
    · cases port with
      | none => exact .inr ⟨rfl, rfl⟩
      | some p =>
          obtain ⟨hne, hlength, hall⟩ := hport p rfl
          exact .inl ⟨p, rfl, (List.append_nil p).symm, hne, hlength, hall⟩
    · cases colon <;> rfl

/-- The ways through the whole pattern. -/
theorem mem_regex {v r : Text} {g : Match} :
    (g, r) ∈ regex v ↔ v = g.text ∧ g.Formed ∧ r = [] := by
  simp only [regex, mem_andThen, mem_scheme, mem_octet, mem_lit, mem_ending]
  constructor
  · rintro ⟨s, t, ⟨rfl, hs⟩, a, t₁, ⟨rfl, ha⟩, _, t₂, ⟨-, rfl⟩, b, t₃, ⟨rfl, hb⟩, _, t₄,
      ⟨-, rfl⟩, c, t₅, ⟨rfl, hc⟩, _, t₆, ⟨-, rfl⟩, d, t₇, ⟨rfl, hd⟩,
      ⟨rfl, rfl, rfl, rfl, rfl⟩, rfl, hport, rfl⟩
    exact ⟨by simp [Match.text, Match.quad], ⟨hs, ha, hb, hc, hd, hport⟩, rfl⟩
  · rintro ⟨rfl, ⟨hs, ha, hb, hc, hd, hport⟩, rfl⟩
    exact ⟨g.scheme, g.quad ++ g.tail, ⟨rfl, hs⟩, g.a, _, ⟨by simp [Match.quad], ha⟩, ['.'],
      _, ⟨rfl, rfl⟩, g.b, _, ⟨rfl, hb⟩, ['.'], _, ⟨rfl, rfl⟩, g.c, _, ⟨rfl, hc⟩, ['.'], _,
      ⟨rfl, rfl⟩, g.d, g.tail, ⟨rfl, hd⟩, ⟨rfl, rfl, rfl, rfl, rfl⟩, rfl, hport, rfl⟩

/-! ## What it matches first -/

theorem formed_of_exec {v : Text} {g : Match} (h : exec v = some g) : v = g.text ∧ g.Formed := by
  obtain ⟨r, hmem⟩ := mem_of_first h
  obtain ⟨htext, hformed, -⟩ := mem_regex.mp hmem
  exact ⟨htext, hformed⟩

/-- Had the last octet left a digit to the port, it would match with that
digit as well. -/
theorem greedy_of_exec {v : Text} {g : Match} (h : exec v = some g) : g.Greedy := by
  obtain ⟨-, s, t, -, -, h, -⟩ := first_andThen h
  obtain ⟨-, a, t, -, -, h, -⟩ := first_andThen h
  obtain ⟨-, _, t, -, -, h, -⟩ := first_andThen h
  obtain ⟨-, b, t, -, -, h, -⟩ := first_andThen h
  obtain ⟨-, _, t, -, -, h, -⟩ := first_andThen h
  obtain ⟨-, c, t, -, -, h, -⟩ := first_andThen h
  obtain ⟨-, _, t, -, -, h, -⟩ := first_andThen h
  obtain ⟨d, t, hd, h, hlonger⟩ := first_andThen_some1 h
  obtain ⟨r, hmem⟩ := mem_of_first h
  obtain ⟨⟨-, -, -, -, rfl⟩, rfl, hport, -⟩ := mem_ending.mp hmem
  intro hcolon hne
  obtain ⟨p, hp⟩ := Option.ne_none_iff_exists'.mp hne
  obtain ⟨hpne, hplength, hpdigits⟩ := hport p hp
  obtain ⟨x, q, rfl⟩ := List.exists_cons_of_ne_nil hpne
  obtain ⟨hx, hq⟩ := Decimal.digits_cons.mp hpdigits
  have htail : g.tail = x :: q := by simp [Match.tail, hcolon, hp]
  rw [htail, ← octet, mem_octet] at hd
  obtain ⟨rfl, hdne, hdlength, hddigits⟩ := hd
  by_contra hthree
  have hoctet : (g.d ++ [x], q) ∈ some1 Char.isDigit 2 (g.d ++ x :: q) := by
    rw [← octet, mem_octet]
    exact ⟨by simp, by simp, by simp; omega, by simp [hddigits, hx]⟩
  have hnil := hlonger (g.d ++ [x]) q hoctet (by simp)
  have hend : ((⟨s, a, b, c, g.d ++ [x], false, if q = [] then none else some q⟩ : Match), []) ∈
      ending s a b c (g.d ++ [x]) q := by
    refine mem_ending.mpr ⟨⟨rfl, rfl, rfl, rfl, rfl⟩, ?_, ?_, rfl⟩
    · by_cases hempty : q = [] <;> simp [Match.tail, hempty]
    · intro p' hp'
      by_cases hempty : q = []
      · simp [hempty] at hp'
      · simp only [hempty, if_false, Option.some_inj] at hp'
        subst hp'
        exact ⟨hempty, by simp at hplength; omega, hq⟩
  rw [hnil] at hend
  cases hend

/-! ## One way to cut -/

namespace Match

/-- The quad begins with a digit. -/
theorem Formed.quad_cons {g : Match} (h : g.Formed) :
    ∃ x q, x.isDigit = true ∧ g.quad = x :: q := by
  obtain ⟨x, a, ha⟩ := List.exists_cons_of_ne_nil h.a.ne_nil
  have hx := h.a.digits x (by rw [ha]; exact List.mem_cons_self)
  exact ⟨x, _, hx, by rw [quad, ha, List.cons_append]⟩

theorem schemeText_inj {s s' : Option Text} {x x' : Char} {q q' : Text}
    (hs : ∀ u, s = some u → u = "http".toList ∨ u = "https".toList)
    (hs' : ∀ u, s' = some u → u = "http".toList ∨ u = "https".toList)
    (hx : x.isDigit = true) (hx' : x'.isDigit = true)
    (h : schemeText s ++ x :: q = schemeText s' ++ x' :: q') : s = s' ∧ x :: q = x' :: q' := by
  have hh : 'h' ≠ x := (Decimal.ne_of_isDigit hx (by decide)).symm
  have hh' : 'h' ≠ x' := (Decimal.ne_of_isDigit hx' (by decide)).symm
  cases s with
  | none =>
      cases s' with
      | none => exact ⟨rfl, h⟩
      | some u' =>
          rcases hs' u' rfl with rfl | rfl <;>
            exact absurd (List.cons.inj h).1.symm hh
  | some u =>
      cases s' with
      | none =>
          rcases hs u rfl with rfl | rfl <;>
            exact absurd (List.cons.inj h).1 hh'
      | some u' =>
          rcases hs u rfl with rfl | rfl <;> rcases hs' u' rfl with rfl | rfl
          · exact ⟨rfl, List.append_cancel_left h⟩
          · simp [schemeText] at h
          · simp [schemeText] at h
          · exact ⟨rfl, List.append_cancel_left h⟩

theorem quad_inj {g g' : Match} (h : g.Formed) (h' : g'.Formed) {t t' : Text}
    (heq : g.quad ++ t = g'.quad ++ t') :
    g.a = g'.a ∧ g.b = g'.b ∧ g.c = g'.c ∧ g.d ++ t = g'.d ++ t' := by
  have hdot : '.'.isDigit = false := by decide
  simp only [quad, List.append_assoc, List.cons_append] at heq
  obtain ⟨ha, -, heq⟩ := Decimal.digits_cut h.a.digits h'.a.digits hdot hdot heq
  obtain ⟨hb, -, heq⟩ := Decimal.digits_cut h.b.digits h'.b.digits hdot hdot heq
  obtain ⟨hc, -, heq⟩ := Decimal.digits_cut h.c.digits h'.c.digits hdot hdot heq
  exact ⟨ha, hb, hc, heq⟩

theorem port_inj {p p' : Option Text} (h : ∀ q, p = some q → IsPort q)
    (h' : ∀ q, p' = some q → IsPort q) (heq : p.getD [] = p'.getD []) : p = p' := by
  cases p with
  | none =>
      cases p' with
      | none => rfl
      | some q' => exact absurd heq.symm (h' q' rfl).ne_nil
  | some q =>
      cases p' with
      | none => exact absurd heq (h q rfl).ne_nil
      | some q' => exact congrArg some heq

theorem Formed.digits_port {g : Match} (h : g.Formed) : Decimal.Digits (g.port.getD []) := by
  cases hp : g.port with
  | none => simp
  | some p => exact (h.port p hp).digits

/-- Where the last octet ends: in front of the colon, or without one
behind as many digits as it can hold. -/
theorem tail_inj {g g' : Match} (h : g.Formed) (h' : g'.Formed) (hg : g.Greedy)
    (hg' : g'.Greedy) (heq : g.d ++ g.tail = g'.d ++ g'.tail) :
    g.d = g'.d ∧ g.colon = g'.colon ∧ g.port = g'.port := by
  have hcolon : ':'.isDigit = false := by decide
  have hmixed : ∀ g g' : Match, g.Formed → g'.Formed → g.colon = true → g'.colon = false →
      g.d ++ g.tail ≠ g'.d ++ g'.tail := by
    intro g g' _ h' hyes hno heq
    have hmem : ':' ∈ g'.d ++ g'.tail := by
      rw [← heq]
      simp [tail, hyes]
    have hdigits : Decimal.Digits (g'.d ++ g'.tail) := by
      simp [tail, hno, h'.d.digits, h'.digits_port]
    exact absurd (hdigits ':' hmem) (by decide)
  cases hc : g.colon with
  | true =>
      cases hc' : g'.colon with
      | false => exact absurd heq (hmixed g g' h h' hc hc')
      | true =>
          simp only [tail, hc, hc', if_true, List.singleton_append] at heq
          obtain ⟨hd, -, hp⟩ := Decimal.digits_cut h.d.digits h'.d.digits hcolon hcolon heq
          exact ⟨hd, rfl, port_inj h.port h'.port hp⟩
  | false =>
      cases hc' : g'.colon with
      | true => exact absurd heq.symm (hmixed g' g h' h hc' hc)
      | false =>
          simp only [tail, hc, hc', Bool.false_eq_true, if_false, List.nil_append] at heq
          have hlength := congrArg List.length heq
          rw [List.length_append, List.length_append] at hlength
          have hle := h.d.length_le
          have hle' := h'.d.length_le
          have hsame : g.d.length = g'.d.length := by
            by_cases hp : g.port = none <;> by_cases hp' : g'.port = none
            · simpa [hp, hp'] using hlength
            · have hthree := hg' hc' hp'
              rw [hp] at hlength
              simp only [Option.getD_none, List.length_nil, Nat.add_zero] at hlength
              omega
            · have hthree := hg hc hp
              rw [hp'] at hlength
              simp only [Option.getD_none, List.length_nil, Nat.add_zero] at hlength
              omega
            · rw [hg hc hp, hg' hc' hp']
          obtain ⟨hd, hp⟩ := List.append_inj heq hsame
          exact ⟨hd, rfl, port_inj h.port h'.port hp⟩

theorem text_inj {g g' : Match} (h : g.Formed) (h' : g'.Formed) (hg : g.Greedy)
    (hg' : g'.Greedy) (heq : g.text = g'.text) : g = g' := by
  obtain ⟨x, q, hx, hquad⟩ := h.quad_cons
  obtain ⟨x', q', hx', hquad'⟩ := h'.quad_cons
  have hscheme := heq
  rw [text, text, hquad, hquad', List.cons_append, List.cons_append] at hscheme
  obtain ⟨hs, hrest⟩ := schemeText_inj h.scheme h'.scheme hx hx' hscheme
  rw [← List.cons_append, ← List.cons_append, ← hquad, ← hquad'] at hrest
  obtain ⟨ha, hb, hc, hd⟩ := quad_inj h h' hrest
  obtain ⟨hd, hcolon, hport⟩ := tail_inj h h' hg hg' hd
  obtain ⟨s, a, b, c, d, colon, port⟩ := g
  obtain ⟨s', a', b', c', d', colon', port'⟩ := g'
  simp_all

end Match

/-- **What `REGEX` finds**: the parts the text is made of, the last octet
taking what it can. -/
theorem exec_eq_some_iff {v : Text} {g : Match} :
    exec v = some g ↔ v = g.text ∧ g.Formed ∧ g.Greedy := by
  constructor
  · intro h
    obtain ⟨htext, hformed⟩ := formed_of_exec h
    exact ⟨htext, hformed, greedy_of_exec h⟩
  · rintro ⟨rfl, hformed, hgreedy⟩
    cases hexec : exec g.text with
    | none =>
        have hmem : (g, []) ∈ regex g.text := mem_regex.mpr ⟨rfl, hformed, rfl⟩
        rw [first_eq_none_iff.mp hexec] at hmem
        cases hmem
    | some g' =>
        obtain ⟨htext, hformed'⟩ := formed_of_exec hexec
        rw [Match.text_inj hformed hformed' hgreedy (greedy_of_exec hexec) htext]

end ProxyAddress

end ProxyBroker.Proxy
