/-
ProxyBroker.Proxy.ProxyList — the list of proxies a task takes as a text
(`ProxyValidateTask.handle`, the constructor of `ProxyData`).

A list is cut at commas and line feeds, and every piece has to match
`REGEX`. `Listing` is the grammar that is meant, said apart from the code:
octets up to 255, a colon in front of a port and nowhere else, ports from
1 to 65535. `REGEX` looks at neither number and wants no colon, and the
constructor refuses the port 0 only.

* `handle_of_listing` — what has the grammar is accepted, with its data;
* `exact_iff` — nothing else is accepted exactly if some piece is refused
  or all have the grammar.

Left out: a value that is no text, which `handle` returns as it is, and
the scheme, which it does not use.
-/
import ProxyBroker.Proxy.ProxyAddress
import ProxyBroker.Proxy.Storage

namespace ProxyBroker.Proxy

open Lib Server

namespace ProxyList

open ProxyAddress

/-! ## The parser -/

inductive HandleError where
  /-- `new Error('unknown data')` -/
  | unknownData
  /-- `new TodoException()` -/
  | todo
  deriving DecidableEq, Repr

/-- `new ProxyData(ip, port)` with a text `ip`. -/
def newProxyData (ip : Text) (port : JsValue) : Except HandleError ProxyData :=
  match port with
  | .num n => if n = 0 then .error .todo else .ok { ip := ip, port := n.toNat }
  | _ => .error .todo

/-- One turn of the loop; `ip` and `port` have defaults there, of which
only the port's is ever used. -/
def handlePiece (v : Text) : Except HandleError ProxyData :=
  match exec v with
  | some matched =>
      newProxyData matched.quad (matched.port.elim (.num 3128) JsValue.parseInt)
  | none => .error .unknownData

def handlePieces : List Text → Except HandleError (List ProxyData)
  | [] => .ok []
  | v :: vs => do
      let proxy ← handlePiece v
      let proxies ← handlePieces vs
      return proxy :: proxies

/-- `/,|\n/` -/
def isSeparator (c : Char) : Bool := c = ',' || c = '\n'

def pieces (value : Text) : List Text := value.splitOnP isSeparator

def handle (value : Text) : Except HandleError (List ProxyData) := handlePieces (pieces value)

/-! ## The grammar -/

/-- The parts of one address as they should be. -/
structure Address (g : Match) : Prop where
  formed : g.Formed
  octets : ∀ o ∈ [g.a, g.b, g.c, g.d], Decimal.value o ≤ 255
  colon : g.colon = g.port.isSome
  port : ∀ p, g.port = some p → 1 ≤ Decimal.value p ∧ Decimal.value p ≤ 65535

/-- Pieces between single separators. -/
inductive Separated : Text → List Text → Prop where
  | last (p : Text) : Separated p [p]
  | cons (p : Text) (sep : Char) (rest : Text) (ps : List Text) :
      isSeparator sep = true → Separated rest ps → Separated (p ++ sep :: rest) (p :: ps)

/-- `value` lists the addresses `gs`. -/
structure Listing (value : Text) (gs : List Match) : Prop where
  separated : Separated value (gs.map Match.text)
  addresses : ∀ g ∈ gs, Address g

/-- The data of an address. -/
def proxyOf (g : Match) : ProxyData :=
  { ip := g.quad, port := g.port.elim 3128 Decimal.value }

/-- What is accepted is a list of addresses, with their data; and every
such list is accepted. -/
structure Exact (value : Text) : Prop where
  sound : ∀ proxies, handle value = .ok proxies →
    ∃ gs, Listing value gs ∧ proxies = gs.map proxyOf
  complete : ∀ gs, Listing value gs → handle value = .ok (gs.map proxyOf)

/-! ## Pieces -/

theorem Address.exec {g : Match} (h : Address g) : exec g.text = some g := by
  refine exec_eq_some_iff.mpr ⟨rfl, h.formed, ?_⟩
  intro hcolon hport
  rw [h.colon, Option.isSome_eq_false_iff, Option.isNone_iff_eq_none] at hcolon
  exact absurd hcolon hport

/-- The port is not written as zero. -/
def NonZero (g : Match) : Prop := ∀ p, g.port = some p → Decimal.value p ≠ 0

theorem Address.nonZero {g : Match} (h : Address g) : NonZero g := by
  intro p hp
  have := (h.port p hp).1
  omega

/-- A piece is accepted if `REGEX` matches and the port is not zero. -/
theorem handlePiece_ok_iff {v : Text} {proxy : ProxyData} :
    handlePiece v = .ok proxy ↔ ∃ g, exec v = some g ∧ NonZero g ∧ proxy = proxyOf g := by
  cases hexec : exec v with
  | none => simp [handlePiece, hexec]
  | some g =>
      have hformed := (exec_eq_some_iff.mp hexec).2.1
      cases hport : g.port with
      | none =>
          simp [handlePiece, hexec, hport, newProxyData, NonZero, proxyOf, eq_comm]
      | some p =>
          obtain ⟨hne, -, hdigits⟩ := hformed.port p hport
          have hparse := Decimal.parseInt_digits hne hdigits
          by_cases hzero : Decimal.value p = 0
          · simp [handlePiece, hexec, hport, newProxyData, NonZero, hparse, hzero]
          · have hzero' : ¬ 0 = Decimal.value p := fun h => hzero h.symm
            simp [handlePiece, hexec, hport, newProxyData, NonZero, proxyOf, hparse, hzero,
              hzero', eq_comm]

theorem handlePieces_cons_ok_iff {v : Text} {vs : List Text} {proxies : List ProxyData} :
    handlePieces (v :: vs) = .ok proxies ↔
      ∃ proxy rest, handlePiece v = .ok proxy ∧ handlePieces vs = .ok rest ∧
        proxies = proxy :: rest := by
  rw [handlePieces]
  cases handlePiece v with
  | error e => simp [bind, Except.bind]
  | ok proxy =>
      cases handlePieces vs with
      | error e => simp [bind, Except.bind]
      | ok rest => simp [bind, Except.bind, pure, Except.pure, eq_comm]

theorem handlePieces_ok_iff {vs : List Text} {proxies : List ProxyData} :
    handlePieces vs = .ok proxies ↔
      ∃ gs : List Match, vs.map exec = gs.map some ∧ (∀ g ∈ gs, NonZero g) ∧
        proxies = gs.map proxyOf := by
  induction vs generalizing proxies with
  | nil =>
      constructor
      · intro h
        cases h
        exact ⟨[], rfl, by simp, rfl⟩
      · rintro ⟨gs, hgs, -, rfl⟩
        rw [List.map_eq_nil_iff.mp hgs.symm]
        rfl
  | cons v vs ih =>
      rw [handlePieces_cons_ok_iff]
      constructor
      · rintro ⟨proxy, rest, hv, hvs, rfl⟩
        obtain ⟨g, hg, hnonZero, rfl⟩ := handlePiece_ok_iff.mp hv
        obtain ⟨gs, hgs, hall, rfl⟩ := ih.mp hvs
        exact ⟨g :: gs, by simp [hg, hgs], by simpa using ⟨hnonZero, hall⟩, rfl⟩
      · rintro ⟨gs, hgs, hall, rfl⟩
        cases gs with
        | nil => simp at hgs
        | cons g gs =>
            rw [List.map_cons, List.map_cons, List.cons.injEq] at hgs
            obtain ⟨hnonZero, hall⟩ := List.forall_mem_cons.mp hall
            exact ⟨proxyOf g, gs.map proxyOf, handlePiece_ok_iff.mpr ⟨g, hgs.1, hnonZero, rfl⟩,
              ih.mpr ⟨gs, hgs.2, hall, rfl⟩, rfl⟩

/-! ## Separators -/

theorem separated_pieces (value : Text) : Separated value (pieces value) := by
  induction hn : value.length using Nat.strongRecOn generalizing value with
  | ind n ih =>
      by_cases hsep : ∃ c ∈ value, isSeparator c = true
      · obtain ⟨front, c, rest, rfl, hc, hfront⟩ : ∃ front c rest, value = front ++ c :: rest ∧
            isSeparator c = true ∧ ∀ x ∈ front, isSeparator x = false := by
          obtain ⟨c, hfind⟩ := Option.isSome_iff_exists.mp (List.find?_isSome.mpr hsep)
          obtain ⟨hc, front, rest, hsplit, hfront⟩ := List.find?_eq_some_iff_append.mp hfind
          exact ⟨front, c, rest, hsplit, hc, fun x hx => by simpa using hfront x hx⟩
        rw [pieces, List.splitOnP_append_cons_of_forall_mem hfront c hc]
        refine .cons front c rest _ hc (ih rest.length ?_ rest rfl)
        rw [← hn, List.length_append, List.length_cons]
        omega
      · have hnone : ∀ c ∈ value, isSeparator c = false := by
          intro c hc
          simpa using fun h => hsep ⟨c, hc, h⟩
        rw [pieces, List.splitOnP_eq_singleton hnone]
        exact .last value

/-- Pieces without separators are what the text is cut into. -/
theorem pieces_of_separated {value : Text} {ps : List Text} (h : Separated value ps)
    (hfree : ∀ p ∈ ps, ∀ c ∈ p, isSeparator c = false) : pieces value = ps := by
  induction h with
  | last p => exact List.splitOnP_eq_singleton (hfree p List.mem_cons_self)
  | cons p sep rest ps hsep hrest ih =>
      rw [pieces, List.splitOnP_append_cons_of_forall_mem (hfree p List.mem_cons_self) sep hsep]
      exact congrArg (p :: ·) (ih fun q hq => hfree q (List.mem_cons_of_mem _ hq))

theorem isSeparator_of_isDigit {c : Char} (h : c.isDigit = true) : isSeparator c = false := by
  have hcomma := Decimal.ne_of_isDigit h (d := ',') (by decide)
  have hnewline := Decimal.ne_of_isDigit h (d := '\n') (by decide)
  simp [isSeparator, hcomma, hnewline]

/-- There is no separator in an address. -/
theorem isSeparator_text {g : Match} (h : g.Formed) : ∀ c ∈ g.text, isSeparator c = false := by
  have hdigits (s : Text) (hs : Decimal.Digits s) : ∀ c ∈ s, isSeparator c = false :=
    fun c hc => isSeparator_of_isDigit (hs c hc)
  have hscheme : ∀ c ∈ Match.schemeText g.scheme, isSeparator c = false := by
    cases hs : g.scheme with
    | none => simp [Match.schemeText]
    | some s => rcases h.scheme s hs with rfl | rfl <;> simp [Match.schemeText, isSeparator]
  have hdot : isSeparator '.' = false := by decide
  have hcolon : isSeparator ':' = false := by decide
  simp only [Match.text, Match.quad, Match.tail, List.mem_append, List.mem_cons]
  rintro c (hc | (hc | rfl | hc | rfl | hc | rfl | hc) | hc | hc)
  · exact hscheme c hc
  · exact hdigits _ h.a.digits c hc
  · exact hdot
  · exact hdigits _ h.b.digits c hc
  · exact hdot
  · exact hdigits _ h.c.digits c hc
  · exact hdot
  · exact hdigits _ h.d.digits c hc
  · cases hg : g.colon with
    | false => simp [hg] at hc
    | true =>
        simp only [hg, if_true, List.mem_singleton] at hc
        exact hc ▸ hcolon
  · exact hdigits _ h.digits_port c hc

/-- The pieces of a listing are its addresses. -/
theorem Listing.pieces {value : Text} {gs : List Match} (h : Listing value gs) :
    ProxyList.pieces value = gs.map Match.text := by
  refine pieces_of_separated h.separated ?_
  intro p hp
  obtain ⟨g, hg, rfl⟩ := List.mem_map.mp hp
  exact isSeparator_text (h.addresses g hg).formed

/-! ## The result -/

/-- **Nothing right is refused.** -/
theorem handle_of_listing {value : Text} {gs : List Match} (h : Listing value gs) :
    handle value = .ok (gs.map proxyOf) := by
  refine handlePieces_ok_iff.mpr ⟨gs, ?_, fun g hg => (h.addresses g hg).nonZero, rfl⟩
  rw [h.pieces, List.map_map]
  exact List.map_congr_left fun g hg => (h.addresses g hg).exec

/-- `REGEX` refuses the piece, or its port is zero. -/
def Refused (v : Text) : Prop := ∀ g, exec v = some g → ¬ NonZero g

/-- The piece has the grammar. -/
def Right (v : Text) : Prop := ∃ g, v = g.text ∧ Address g

theorem right_iff {v : Text} : Right v ↔ ∃ g, exec v = some g ∧ Address g := by
  constructor
  · rintro ⟨g, rfl, haddress⟩
    exact ⟨g, haddress.exec, haddress⟩
  · rintro ⟨g, hexec, haddress⟩
    exact ⟨g, (exec_eq_some_iff.mp hexec).1, haddress⟩

/-- Matched pieces are the texts of their matches. -/
theorem texts_of_matches {vs : List Text} {gs : List Match} (h : vs.map exec = gs.map some) :
    vs = gs.map Match.text ∧ ∀ g ∈ gs, exec g.text = some g := by
  induction vs generalizing gs with
  | nil =>
      rw [List.map_eq_nil_iff.mp h.symm]
      exact ⟨rfl, by simp⟩
  | cons v vs ih =>
      cases gs with
      | nil => simp at h
      | cons g gs =>
          rw [List.map_cons, List.map_cons, List.cons.injEq] at h
          obtain ⟨htexts, hexec⟩ := ih h.2
          have hv := (exec_eq_some_iff.mp h.1).1
          exact ⟨by rw [List.map_cons, ← htexts, ← hv],
            List.forall_mem_cons.mpr ⟨hv ▸ h.1, hexec⟩⟩

theorem exists_matches {vs : List Text} (h : ∀ v ∈ vs, ¬ Refused v) :
    ∃ gs : List Match, vs.map exec = gs.map some ∧ ∀ g ∈ gs, NonZero g := by
  induction vs with
  | nil => exact ⟨[], rfl, by simp⟩
  | cons v vs ih =>
      obtain ⟨hv, hvs⟩ := List.forall_mem_cons.mp h
      obtain ⟨gs, hgs, hall⟩ := ih hvs
      simp only [Refused, not_forall, not_not] at hv
      obtain ⟨g, hg, hnonZero⟩ := hv
      exact ⟨g :: gs, by simp [hg, hgs], by simpa using ⟨hnonZero, hall⟩⟩

/-- **The parser has its grammar exactly if** some piece is refused or all
are right. -/
theorem exact_iff (value : Text) :
    Exact value ↔ (∃ v ∈ pieces value, Refused v) ∨ ∀ v ∈ pieces value, Right v := by
  constructor
  · intro h
    by_cases hrefused : ∃ v ∈ pieces value, Refused v
    · exact .inl hrefused
    · refine .inr fun v hv => ?_
      obtain ⟨gs, hgs, hall⟩ := exists_matches fun v hv hr => hrefused ⟨v, hv, hr⟩
      obtain ⟨gs', hlisting, -⟩ := h.sound _ (handlePieces_ok_iff.mpr ⟨gs, hgs, hall, rfl⟩)
      rw [hlisting.pieces] at hv
      obtain ⟨g, hg, rfl⟩ := List.mem_map.mp hv
      exact ⟨g, rfl, hlisting.addresses g hg⟩
  · intro h
    refine ⟨?_, fun gs hlisting => handle_of_listing hlisting⟩
    intro proxies hok
    obtain ⟨gs, hgs, hnonZero, rfl⟩ := handlePieces_ok_iff.mp hok
    obtain ⟨htexts, hexec⟩ := texts_of_matches hgs
    rw [htexts] at h
    rcases h with ⟨v, hv, hrefused⟩ | hright
    · obtain ⟨g, hg, rfl⟩ := List.mem_map.mp hv
      exact absurd (hnonZero g hg) (hrefused g (hexec g hg))
    · refine ⟨gs, ⟨htexts ▸ separated_pieces value, fun g hg => ?_⟩, rfl⟩
      obtain ⟨g', hg', haddress⟩ := right_iff.mp (hright g.text (List.mem_map_of_mem hg))
      rw [hexec g hg, Option.some_inj] at hg'
      exact hg' ▸ haddress

/-- A port without a colon: its first digit goes into the address. -/
theorem not_exact_noColon : ¬ Exact "1.2.3.45678".toList := by
  intro h
  have hok : handle "1.2.3.45678".toList =
      .ok [{ ip := "1.2.3.456".toList, port := 78 }] := by decide +kernel
  obtain ⟨gs, hlisting, -⟩ := h.sound _ hok
  have hone : pieces "1.2.3.45678".toList = ["1.2.3.45678".toList] := by decide +kernel
  have htexts := hone.symm.trans hlisting.pieces
  obtain ⟨g, hg, htext⟩ : ∃ g ∈ gs, g.text = "1.2.3.45678".toList :=
    List.mem_map.mp (htexts ▸ List.mem_singleton_self _)
  have haddress := hlisting.addresses g hg
  have hexec := haddress.exec
  have hcolonless : (exec "1.2.3.45678".toList).map (fun g => (g.colon, g.port.isSome)) =
      some (false, true) := by decide +kernel
  rw [htext] at hexec
  rw [hexec, Option.map_some, Option.some_inj, Prod.mk.injEq, haddress.colon] at hcolonless
  exact absurd (hcolonless.1.symm.trans hcolonless.2) (by decide)

end ProxyList

end ProxyBroker.Proxy
