/-
ProxyBroker.Server.GetTarget — which proxy a request is sent over
(`ProxyServer.getTarget`): the one the client asks for in the header
`Proxy-Select-Proxy`, else the configured target.

The header has to match `REGEX`, and is then read by `url.parse`. The two
do not agree on what a host and a port are: `HonoursSelection` is that the
parts `REGEX` finds are the ones the url has, and `honoursSelection_iff`
says that they are so for values that are spelled out in full, with
scheme, colon and port.

The promise of a target function may reject; reading a property of null
rejects the promise of `getTarget`.
-/
import ProxyBroker.Lib.LegacyUrl
import ProxyBroker.Proxy.ProxyAddress
import ProxyBroker.Server.ProxyServer

namespace ProxyBroker.Server

open Lib Proxy

namespace GetTarget

open ProxyAddress

/-! ## The target -/

/-- `IUrlBase` as it is put together here: without a host `hostname` is
null, and `port` is what `parseInt` gives. -/
structure ProxyUrl where
  protocol : Text
  hostname : Option Text
  port : JsValue
  deriving DecidableEq, Repr

/-- What a target function resolves to. -/
inductive Answer where
  | ipAddr (protocolSrc : ProtocolType) (ip : Text) (port : Nat)
  | url (t : ProxyUrl)
  | null
  deriving DecidableEq, Repr

/-- The option `target`. -/
inductive Target where
  | unset
  | text (url : Text)
  | function (next : List (Text × Text) → Except JsException Answer)

/-- The fields taken out of a parsed url. -/
def ofUrl (u : LegacyUrl.Url) : Except JsException ProxyUrl :=
  match u.protocol with
  -- `replace` is read of null
  | none => .error .typeError
  | some protocol =>
      .ok {
        protocol := protocol.erase ':'
        hostname := u.hostname
        port := JsValue.parseInt (u.port.getD "null".toList) }

/-- What `getTarget` makes of the answer of a target function. -/
def ofAnswer : Answer → Except JsException (Option ProxyUrl)
  | .ipAddr protocolSrc ip port =>
      .ok (some {
        protocol := if protocolSrc = .http then "http".toList else "https".toList
        hostname := some ip
        port := .num port })
  | .url t =>
      if (t.hostname.getD []) ≠ [] ∧ t.port.truthy ∧ t.protocol ≠ [] then .ok (some t)
      else .ok none
  | .null => .error .typeError

/-- The target of the options. -/
def configured (target : Target) (headers : List (Text × Text)) :
    Except JsException (Option ProxyUrl) :=
  match target with
  | .unset => .ok none
  | .text url => (ofUrl (LegacyUrl.parse url)).map some
  | .function next => (next headers).bind ofAnswer

def getTarget (target : Target) (headers : List (Text × Text)) :
    Except JsException (Option ProxyUrl) :=
  match headers.lookup (toLowerCase headerKeyProxySelectProxy) with
  | some value =>
      if test value then (ofUrl (LegacyUrl.parse value)).map some else configured target headers
  | none => configured target headers

/-! ## What is asked for -/

/-- The url is the one the parts of the value name; a port that is not
named may be any valid one. -/
structure Names (g : Match) (t : ProxyUrl) : Prop where
  hostname : t.hostname = some g.quad
  protocol : t.protocol = g.scheme.getD "http".toList
  port : ∃ n : Nat, t.port = .num n ∧
    g.port.elim (1 ≤ n ∧ n ≤ 65535) (fun p => n = Decimal.value p)

/-- `getTarget` resolves to what the value asks for. -/
def HonoursSelection (target : Target) (headers : List (Text × Text)) (value : Text) : Prop :=
  ∃ g t, exec value = some g ∧ getTarget target headers = .ok (some t) ∧ Names g t

/-- Scheme, address, colon and port. -/
def SpelledOut (value : Text) : Prop :=
  ∃ g : Match, value = g.text ∧ g.Formed ∧ g.scheme ≠ none ∧ g.colon = true ∧ g.port ≠ none

/-! ## Reading the value -/

theorem isPlain_of_isDigit {c : Char} (h : c.isDigit = true) : LegacyUrl.isPlain c = true := by
  simp [LegacyUrl.isPlain, h]

theorem plain_digits {s : Text} (h : Decimal.Digits s) : LegacyUrl.Plain s :=
  fun c hc => isPlain_of_isDigit (h c hc)

theorem plain_quad {g : Match} (h : g.Formed) : LegacyUrl.Plain g.quad := by
  have hdot : LegacyUrl.isPlain '.' = true := by decide
  simp only [LegacyUrl.Plain, Match.quad, List.mem_append, List.mem_cons]
  rintro c (hc | rfl | hc | rfl | hc | rfl | hc)
  · exact plain_digits h.a.digits c hc
  · exact hdot
  · exact plain_digits h.b.digits c hc
  · exact hdot
  · exact plain_digits h.c.digits c hc
  · exact hdot
  · exact plain_digits h.d.digits c hc

theorem colon_quad {g : Match} (h : g.Formed) : ':' ∉ g.quad := by
  have hdigits (s : Text) (hs : Decimal.Digits s) : ':' ∉ s :=
    fun hc => absurd (hs ':' hc) (by decide)
  simp [Match.quad, hdigits _ h.a.digits, hdigits _ h.b.digits, hdigits _ h.c.digits,
    hdigits _ h.d.digits]

theorem length_quad {g : Match} (h : g.Formed) : g.quad.length ≤ 255 := by
  have ha := h.a.length_le
  have hb := h.b.length_le
  have hc := h.c.length_le
  have hd := h.d.length_le
  simp only [Match.quad, List.length_append, List.length_cons]
  omega

theorem plain_tail {g : Match} (h : g.Formed) : LegacyUrl.Plain g.tail := by
  have hport := plain_digits h.digits_port
  unfold Match.tail
  split
  · exact LegacyUrl.plain_colon.append hport
  · exact hport

theorem colon_digits {s : Text} (h : Decimal.Digits s) : ':' ∉ s :=
  fun hc => absurd (h ':' hc) (by decide)

/-- The port of the url is the one behind the colon. -/
theorem splitPort_quad {g : Match} (h : g.Formed) (hcolon : g.colon = true) :
    LegacyUrl.splitPort (g.quad ++ g.tail) = (g.quad, g.port) := by
  have htail : g.tail = ':' :: g.port.getD [] := by simp [Match.tail, hcolon]
  rw [htail, LegacyUrl.splitPort_colon _ h.digits_port]
  cases hp : g.port with
  | none => simp
  | some p => simp [(h.port p hp).ne_nil]

/-- A scheme is read by both alike. -/
theorem parse_scheme {g : Match} (h : g.Formed) {s : Text} (hs : g.scheme = some s) :
    LegacyUrl.parse g.text =
      { protocol := some (s ++ [':'])
        hostname := some (LegacyUrl.hostnameOf (LegacyUrl.splitPort (g.quad ++ g.tail)).1)
        port := (LegacyUrl.splitPort (g.quad ++ g.tail)).2 } := by
  have hrest := (plain_quad h).append (plain_tail h)
  have htext : g.text = s ++ "://".toList ++ (g.quad ++ g.tail) := by
    rw [Match.text, hs]
    rfl
  rw [htext]
  rcases h.scheme s hs with rfl | rfl
  · exact LegacyUrl.parse_slashed (by decide) (by decide) (by decide) (by decide) hrest
  · exact LegacyUrl.parse_slashed (by decide) (by decide) (by decide) (by decide) hrest

/-- Without a scheme, the address in front of a colon is taken for the
protocol. -/
theorem parse_noScheme {g : Match} (h : g.Formed) (hs : g.scheme = none)
    (hcolon : g.colon = true) :
    LegacyUrl.parse g.text =
      { protocol := some (g.quad ++ [':'])
        hostname := some (LegacyUrl.hostnameOf (g.port.getD []))
        port := none } := by
  have htext : g.text = g.quad ++ ':' :: g.port.getD [] := by
    rw [Match.text, hs, Match.tail, hcolon]
    rfl
  obtain ⟨x, q, hx, hquad⟩ := h.quad_cons
  have hother (known : List Text)
      (hknown : known.all (fun k => k.all (fun c => !c.isDigit)) = true) :
      known.contains (g.quad ++ [':']) = false := by
    rw [Bool.eq_false_iff]
    intro hmem
    have hall := List.all_eq_true.mp hknown _ (List.contains_iff_mem.mp hmem)
    have hdigit := List.all_eq_true.mp hall x (by rw [hquad]; exact List.mem_cons_self)
    rw [hx] at hdigit
    cases hdigit
  rw [htext, LegacyUrl.parse_hostOnly (plain_quad h) (by rw [hquad]; simp) (colon_quad h)
    (hother _ (by decide)) (hother _ (by decide)) (plain_digits h.digits_port),
    LegacyUrl.splitPort_noColon (colon_digits h.digits_port)]

/-- Without a colon there is no protocol at all. -/
theorem parse_bare {g : Match} (h : g.Formed) (hs : g.scheme = none) (hcolon : g.colon = false) :
    LegacyUrl.parse g.text = {} := by
  have htext : g.text = g.quad ++ g.port.getD [] := by
    rw [Match.text, hs, Match.tail, hcolon]
    rfl
  rw [htext]
  refine LegacyUrl.parse_noColon ((plain_quad h).append (plain_digits h.digits_port)) ?_
  rw [List.mem_append, not_or]
  exact ⟨colon_quad h, colon_digits h.digits_port⟩

/-! ## The result -/

theorem getTarget_selected {target : Target} {headers : List (Text × Text)} {value : Text}
    (hvalue : headers.lookup (toLowerCase headerKeyProxySelectProxy) = some value)
    (htest : test value = true) :
    getTarget target headers = (ofUrl (LegacyUrl.parse value)).map some := by
  simp only [getTarget, hvalue, htest, if_true]

theorem parseInt_null : JsValue.parseInt "null".toList = .nan := by decide

/-- A url without a port is turned into one with the port NaN. -/
theorem not_names_of_port {g : Match} {u : LegacyUrl.Url} (hport : u.port = none) {t : ProxyUrl}
    (ht : ofUrl u = .ok t) : ¬ Names g t := by
  intro hnames
  obtain ⟨n, hn, -⟩ := hnames.port
  cases hprotocol : u.protocol with
  | none =>
      rw [ofUrl, hprotocol] at ht
      cases ht
  | some protocol =>
      rw [ofUrl, hprotocol, hport] at ht
      cases ht
      rw [Option.getD_none, parseInt_null] at hn
      cases hn

/-- Only a value that is spelled out gives a url with a port. -/
theorem parse_port {g : Match} (h : g.Formed)
    (hshort : ¬ (g.scheme ≠ none ∧ g.colon = true ∧ g.port ≠ none)) :
    (LegacyUrl.parse g.text).port = none := by
  cases hcolon : g.colon with
  | true =>
      cases hs : g.scheme with
      | none => rw [parse_noScheme h hs hcolon]
      | some s =>
          have hport : g.port = none := by simpa [hs, hcolon] using hshort
          rw [parse_scheme h hs, splitPort_quad h hcolon, hport]
  | false =>
      cases hs : g.scheme with
      | none => rw [parse_bare h hs hcolon]
      | some s =>
          have htail : g.tail = g.port.getD [] := by simp [Match.tail, hcolon]
          have hnone : ':' ∉ g.quad ++ g.tail := by
            rw [htail, List.mem_append, not_or]
            exact ⟨colon_quad h, colon_digits h.digits_port⟩
          rw [parse_scheme h hs, LegacyUrl.splitPort_noColon hnone]

/-- What a value that is spelled out is turned into. -/
theorem ofUrl_spelledOut {g : Match} (h : g.Formed) {s p : Text} (hs : g.scheme = some s)
    (hcolon : g.colon = true) (hport : g.port = some p) :
    ofUrl (LegacyUrl.parse g.text) =
      .ok { protocol := s, hostname := some g.quad, port := .num (Decimal.value p) } := by
  obtain ⟨hne, -, hdigits⟩ := h.port p hport
  have hscheme : (s ++ [':']).erase ':' = s := by
    rcases h.scheme s hs with rfl | rfl <;> decide
  rw [parse_scheme h hs, splitPort_quad h hcolon, hport,
    LegacyUrl.hostnameOf_of_plain (plain_quad h) (colon_quad h) (length_quad h)]
  simp only [ofUrl, hscheme, Option.getD_some, Decimal.parseInt_digits hne hdigits]

/-- **The client gets the proxy it asks for exactly if** it spells it out. -/
theorem honoursSelection_iff (target : Target) (headers : List (Text × Text)) (value : Text)
    (hvalue : headers.lookup (toLowerCase headerKeyProxySelectProxy) = some value)
    (htest : test value = true) :
    HonoursSelection target headers value ↔ SpelledOut value := by
  obtain ⟨g, hexec⟩ := Option.isSome_iff_exists.mp htest
  obtain ⟨rfl, hformed, -⟩ := exec_eq_some_iff.mp hexec
  have hget := @getTarget_selected target _ _ hvalue htest
  constructor
  · rintro ⟨g', t, hexec', ht, hnames⟩
    rw [hexec, Option.some_inj] at hexec'
    subst hexec'
    by_contra hshort
    have hport := parse_port hformed fun ⟨hs, hcolon, hp⟩ =>
      hshort ⟨g, rfl, hformed, hs, hcolon, hp⟩
    rw [hget] at ht
    cases hurl : ofUrl (LegacyUrl.parse g.text) with
    | error e =>
        rw [hurl] at ht
        cases ht
    | ok t' =>
        rw [hurl] at ht
        cases ht
        exact not_names_of_port hport hurl hnames
  · rintro ⟨g', htext, hformed', hs, hcolon, hp⟩
    obtain ⟨s, hs⟩ := Option.ne_none_iff_exists'.mp hs
    obtain ⟨p, hp⟩ := Option.ne_none_iff_exists'.mp hp
    have hexec' : exec g'.text = some g' :=
      exec_eq_some_iff.mpr ⟨rfl, hformed', fun hno => by rw [hcolon] at hno; cases hno⟩
    rw [htext] at hexec hget ⊢
    have hurl := ofUrl_spelledOut hformed' hs hcolon hp
    rw [hurl] at hget
    exact ⟨g', _, hexec', hget, rfl, by rw [hs]; rfl, _, rfl, by rw [hp]; rfl⟩

/-- A proxy that is asked for in full. -/
theorem honoursSelection_full :
    HonoursSelection .unset
      [("proxy-select-proxy".toList, "http://10.0.0.1:3128".toList)]
      "http://10.0.0.1:3128".toList := by
  refine (honoursSelection_iff .unset _ _ (by decide +kernel) (by decide +kernel)).mpr ?_
  have hexec : exec "http://10.0.0.1:3128".toList =
      some ⟨some "http".toList, "10".toList, "0".toList, "0".toList, "1".toList, true,
        some "3128".toList⟩ := by decide +kernel
  obtain ⟨htext, hformed⟩ := formed_of_exec hexec
  exact ⟨_, htext, hformed, by simp, rfl, by simp⟩

/-- `10.0.0.1:3128` is read as protocol and host. -/
theorem not_honoursSelection_noScheme :
    ¬ HonoursSelection .unset
      [("proxy-select-proxy".toList, "10.0.0.1:3128".toList)] "10.0.0.1:3128".toList := by
  rintro ⟨g, t, -, ht, hnames⟩
  obtain ⟨n, hn, -⟩ := hnames.port
  have hget : getTarget .unset [("proxy-select-proxy".toList, "10.0.0.1:3128".toList)] =
      .ok (some
        { protocol := "10.0.0.1".toList, hostname := some "3128".toList, port := .nan }) := by
    decide +kernel
  rw [hget] at ht
  cases ht
  cases hn

end GetTarget

end ProxyBroker.Server
