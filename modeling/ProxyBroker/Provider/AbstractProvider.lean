/-
ProxyBroker.Provider.AbstractProvider — what the providers that read web
pages share: the list of what they found (`AbstractProvider`), and the
regular expressions that find it in a page.

An expression is a `rowMatcher`: an opening, an address, a gap, a port and
a closing.

* `pushMatches_eq` — a page's matches go to the end of the list, if they
  are new;
* `writeRow` — a row of a page as it is written; the library reads a page
  of such rows back (`matchAll_page`).

Ports are numbers as they are written: a row's are small enough for
JavaScript to have them exactly. Left out: `prepare`, which no provider
here has, and the log messages.
-/
import ProxyBroker.Lib.Decimal
import ProxyBroker.Lib.FirstSeen
import ProxyBroker.Lib.GlobalSearch
import ProxyBroker.Provider.ProviderManager

namespace ProxyBroker.Provider

open Lib Lib.Matcher

/-! ## What was found -/

structure IProxyData where
  ip : Text
  port : Nat
  deriving DecidableEq, Repr

structure AbstractProvider (V : Type) where
  variant : Option V := none
  proxies : List IProxyData := []

namespace AbstractProvider

variable {V : Type}

/-- `selectVariant`, for the type of a variant or for a variant. -/
def selectVariant (type : V → Text) (variants : List V) (p : AbstractProvider V) :
    Text ⊕ V → AbstractProvider V
  | .inl t => { p with variant := variants.find? (fun x => type x = t) }
  | .inr variant => { p with variant := some variant }

/-- `push`: `_.find` compares both properties. -/
def push (p : AbstractProvider V) (data : IProxyData) : AbstractProvider V :=
  { p with proxies := pushNew p.proxies data }

/-- The loop over the matches in a page. -/
def pushMatches (pattern : Matcher IProxyData) (html : Text) (p : AbstractProvider V) :
    AbstractProvider V :=
  (matchAll pattern html).foldl push p

theorem foldl_push (p : AbstractProvider V) (found : List IProxyData) :
    found.foldl push p = { p with proxies := pushAll p.proxies found } := by
  induction found generalizing p with
  | nil => rfl
  | cons data found ih => exact ih (p.push data)

theorem pushMatches_eq (pattern : Matcher IProxyData) (html : Text) (p : AbstractProvider V) :
    p.pushMatches pattern html =
      { p with proxies := pushAll p.proxies (matchAll pattern html) } := foldl_push p _

end AbstractProvider

/-! ## The expressions -/

/-- `\d+` -/
def digits : Matcher Text := plus Char.isDigit

/-- `("|')` -/
def quote : Matcher Text := orElse (lit "\"".toList) (lit "'".toList)

/-- `\d+\.\d+\.\d+\.\d+` -/
def ipMatcher : Matcher Text :=
  andThen digits fun a => andThen (lit ['.']) fun _ =>
  andThen digits fun b => andThen (lit ['.']) fun _ =>
  andThen digits fun c => andThen (lit ['.']) fun _ =>
  andThen digits fun d => done (a ++ '.' :: (b ++ '.' :: (c ++ '.' :: d)))

/-- `opening(\d+\.\d+\.\d+\.\d+)gap(\d+)closing`, as what is pushed for a
match. -/
def rowMatcher (opening : Text) (gap : Matcher Text) (closing : Text) : Matcher IProxyData :=
  andThen (lit opening) fun _ =>
  andThen ipMatcher fun ip =>
  andThen gap fun _ =>
  andThen digits fun port =>
  andThen (lit closing) fun _ => done ⟨ip, Decimal.value port⟩

/-! ## Quotes -/

def quoteText (double : Bool) : Text := if double then "\"".toList else "'".toList

theorem takes_quote (double : Bool) (r : Text) :
    Takes quote (quoteText double ++ r) (quoteText double) r := by
  cases double <;> rfl

/-! ## Rows -/

/-- One or more digits. -/
structure Numeral where
  text : Text
  nonempty : text ≠ []
  digits : Decimal.Digits text

theorem Numeral.takes (n : Numeral) {r : Text} (hr : ∀ c ∈ r.head?, c.isDigit = false) :
    Takes Provider.digits (n.text ++ r) n.text r := takes_plus n.nonempty n.digits hr

/-- Up to here JavaScript has every whole number. -/
def maxExact : Nat := 9007199254740992

/-- An address and a port, as a page has them. -/
structure ProxyRow where
  first : Numeral
  second : Numeral
  third : Numeral
  fourth : Numeral
  port : Numeral
  port_exact : Decimal.value port.text ≤ maxExact

theorem digits_ten : Decimal.Digits "10".toList := Decimal.digits_iff_all.mpr rfl

theorem exact_ten : Decimal.value "10".toList ≤ maxExact := by decide

/-- 10.10.10.10, port 10. -/
def exampleRow : ProxyRow :=
  let ten : Numeral := ⟨"10".toList, List.cons_ne_nil _ _, digits_ten⟩
  ⟨ten, ten, ten, ten, ten, exact_ten⟩

def ProxyRow.ip (row : ProxyRow) : Text :=
  row.first.text ++ '.' :: (row.second.text ++ '.' :: (row.third.text ++ '.' :: row.fourth.text))

def ProxyRow.data (row : ProxyRow) : IProxyData := ⟨row.ip, Decimal.value row.port.text⟩

theorem ProxyRow.takes_ip (row : ProxyRow) {r : Text} (hr : ∀ c ∈ r.head?, c.isDigit = false) :
    Takes ipMatcher (row.ip ++ r) row.ip r := by
  have hdot (s : Text) : ∀ c ∈ ('.' :: s).head?, c.isDigit = false := by
    intro c hc
    cases hc
    rfl
  have hlit (s : Text) : Takes (lit ['.']) ('.' :: s) ['.'] s := takes_lit ['.'] s
  simp only [ProxyRow.ip, List.append_assoc, List.cons_append]
  exact takes_andThen (row.first.takes (hdot _)) (takes_andThen (hlit _)
    (takes_andThen (row.second.takes (hdot _)) (takes_andThen (hlit _)
      (takes_andThen (row.third.takes (hdot _)) (takes_andThen (hlit _)
        (takes_andThen (row.fourth.takes hr) (takes_done _ _)))))))

/-- What stands between an address and its port. -/
structure Gap (gap : Matcher Text) where
  text : Text
  starts : ∃ c ∈ text.head?, c.isDigit = false
  takes : ∀ r : Text, (∃ c ∈ r.head?, c.isDigit = true) → Takes gap (text ++ r) text r

section Rows

variable {x : Char} {t : Text} {gap : Matcher Text} {closing : Text}

/-- A `rowMatcher` without a closing takes all digits of a port there are. -/
def rowMore (closing : Text) (c : Char) : Bool := closing.isEmpty && c.isDigit

theorem takes_row (hclosing : ∀ c ∈ closing.head?, c.isDigit = false) (row : ProxyRow)
    (g : Gap gap) {r : Text} (hr : ∀ c ∈ r.head?, rowMore closing c = false) :
    Takes (rowMatcher (x :: t) gap closing)
      ((x :: t) ++ (row.ip ++ (g.text ++ (row.port.text ++ (closing ++ r))))) row.data r := by
  have hport : ∃ c ∈ (row.port.text ++ (closing ++ r)).head?, c.isDigit = true := by
    obtain ⟨c, s, hs⟩ := List.exists_cons_of_ne_nil row.port.nonempty
    have hdigit : c.isDigit = true := row.port.digits c (by simp [hs])
    exact ⟨c, by simp [hs], hdigit⟩
  have hgap : ∀ c ∈ (g.text ++ (row.port.text ++ (closing ++ r))).head?, c.isDigit = false := by
    obtain ⟨c, hc, hdigit⟩ := g.starts
    intro d hd
    rw [List.head?_append, Option.mem_def.mp hc, Option.some_or] at hd
    exact Option.some.inj hd ▸ hdigit
  have hend : ∀ c ∈ (closing ++ r).head?, c.isDigit = false := by
    intro c hc
    cases hcases : closing with
    | nil =>
        rw [hcases] at hr hc
        simpa [rowMore] using hr c hc
    | cons d s =>
        rw [hcases] at hc
        exact hclosing c (by rw [hcases]; exact hc)
  exact takes_andThen (takes_lit _ _) (takes_andThen (row.takes_ip hgap)
    (takes_andThen (g.takes _ hport) (takes_andThen (row.port.takes hend)
      (takes_andThen (takes_lit _ _) (takes_done _ _)))))

/-- A row as it is written in a page. -/
def writeRow (hclosing : ∀ c ∈ closing.head?, c.isDigit = false) (row : ProxyRow) (g : Gap gap) :
    Row (rowMatcher (x :: t) gap closing) (rowMore closing) where
  text := (x :: t) ++ (row.ip ++ (g.text ++ (row.port.text ++ closing)))
  value := row.data
  nonempty := List.cons_ne_nil _ _
  takes r hr := by
    have h := takes_row (x := x) (t := t) hclosing row g hr
    simpa only [List.append_assoc] using h

end Rows

end ProxyBroker.Provider
