/-
ProxyBroker.Lib.LegacyUrl — `url.parse` of Node, the legacy parser: protocol,
hostname and port of a text.

The protocol is everything up to a leading colon, if that is letters,
digits, dots, plus and minus only. A host follows behind two slashes, or
behind a protocol that is not among those written with slashes; so the
text `1.2.3.4:80` has the protocol `1.2.3.4:` and the host `80`.

`parse_slashed` and `parse_hostOnly` compute it for the two ways a host
is found, for texts of plain characters: those that stay as they are.

Left out: auth, path, query and hash, a host of a text that begins with
slashes (there is no protocol then), names outside ASCII with their
encoding, and the limits of single labels.
-/
import ProxyBroker.Lib.JsText

namespace Lib.LegacyUrl

/-! ## The parser -/

/-- The fields of the result; `none` is null. -/
structure Url where
  protocol : Option (List Char) := none
  hostname : Option (List Char) := none
  port : Option (List Char) := none
  deriving DecidableEq, Repr

/-- `[a-z0-9.+-]`, ignoring case. -/
def isProtocolChar (c : Char) : Bool := c.isAlphanum || c = '.' || c = '+' || c = '-'

/-- `/^[a-z0-9.+-]+:/i`: the protocol with its colon, and the rest. -/
def splitProtocol (s : List Char) : Option (List Char × List Char) :=
  let proto := s.takeWhile isProtocolChar
  match s.dropWhile isProtocolChar with
  | ':' :: rest => if proto = [] then none else some (proto ++ [':'], rest)
  | _ => none

def slashedProtocol : List (List Char) :=
  ["http:", "https:", "ftp:", "gopher:", "file:", "ws:", "wss:"].map String.toList

def hostlessProtocol : List (List Char) := ["javascript:".toList]

/-- The characters no host may have; the first three end it. -/
def endsHost (c : Char) : Bool :=
  ['/', '?', '#', '\t', '\n', '\r', ' ', '\x22', '%', '\x27', ';', '<', '>', '\\', '^', '\x60',
    '\x7b', '|', '\x7d'].contains c

/-- What stands between the last at sign in front of the path and the end
of the host. -/
def hostOf (rest : List Char) : List Char :=
  let authority := rest.takeWhile (fun c => !(['/', '?', '#'].contains c))
  (authority.rtakeWhile (· ≠ '@')).takeWhile (fun c => !endsHost c)

/-- `/:[0-9]*$/`: the host without its port, and the port. -/
def splitPort (host : List Char) : List Char × Option (List Char) :=
  let front := host.rdropWhile Char.isDigit
  let digits := host.rtakeWhile Char.isDigit
  if front.getLast? = some ':' then (front.dropLast, if digits = [] then none else some digits)
  else (host, none)

/-- The characters a host name is cut at; a name in brackets is an IPv6
address. -/
def isHostChar (c : Char) : Bool := c.isAlphanum || c = '.' || c = '-' || c = '+' || c = '_'

def hostnameOf (name : List Char) : List Char :=
  if name.head? = some '[' ∧ name.getLast? = some ']' then
    (name.drop 1).dropLast.map Char.toLower
  else
    let name := name.takeWhile isHostChar
    if 255 < name.length then [] else name.map Char.toLower

/-- White space around the text is dropped, and backslashes in front of a
query or hash are slashes. -/
def clean (s : List Char) : List Char :=
  let s := JsText.trim s
  let front := s.takeWhile (fun c => !(['?', '#'].contains c))
  front.map (fun c => if c = '\\' then '/' else c) ++ s.drop front.length

def parse (s : List Char) : Url :=
  match splitProtocol (clean s) with
  | none => {}
  | some (proto, rest) =>
      let protocol := proto.map Char.toLower
      let slashes := "//".toList.isPrefixOf rest
      let hostless := hostlessProtocol.contains protocol
      if !hostless && (slashes || !slashedProtocol.contains proto) then
        let (name, port) := splitPort (hostOf (if slashes then rest.drop 2 else rest))
        { protocol := some protocol, hostname := some (hostnameOf name), port := port }
      else { protocol := some protocol }

/-! ## Plain texts -/

/-- A character of hosts and ports that stays as it is. -/
def isPlain (c : Char) : Bool := c.isDigit || c.isLower || c = '.' || c = '-' || c = ':'

def Plain (s : List Char) : Prop := ∀ c ∈ s, isPlain c = true

instance (s : List Char) : Decidable (Plain s) :=
  decidable_of_iff (s.all isPlain = true) List.all_eq_true

theorem isPlain_lt {c : Char} (h : isPlain c = true) : c.toNat < 128 := by
  have hle : ∀ last : UInt32, last.toNat < 128 → c.val ≤ last → c.toNat < 128 :=
    fun _ hlast hc => Nat.lt_of_le_of_lt (UInt32.le_iff_toNat_le.mp hc) hlast
  simp only [isPlain, Bool.or_eq_true, decide_eq_true_eq] at h
  rcases h with (((hdigit | hlower) | rfl) | rfl) | rfl
  · exact hle _ (by decide) (of_decide_eq_true (Bool.and_eq_true_iff.mp hdigit).2)
  · exact hle _ (by decide) (of_decide_eq_true (Bool.and_eq_true_iff.mp hlower).2)
  · decide
  · decide
  · decide

/-- A plain character is a delimiter of no kind, the colon apart. -/
theorem isPlain_facts {c : Char} (h : isPlain c = true) :
    JsText.isSpace c = false ∧ endsHost c = false ∧ ['?', '#'].contains c = false ∧
      ['/', '?', '#'].contains c = false ∧ c ≠ '@' ∧ c ≠ '[' ∧ c.toLower = c ∧
      (c ≠ ':' → isProtocolChar c = true ∧ isHostChar c = true) := by
  have hall : ∀ n < 128, isPlain (Char.ofNat n) = true →
      JsText.isSpace (Char.ofNat n) = false ∧ endsHost (Char.ofNat n) = false ∧
        ['?', '#'].contains (Char.ofNat n) = false ∧
        ['/', '?', '#'].contains (Char.ofNat n) = false ∧
        Char.ofNat n ≠ '@' ∧ Char.ofNat n ≠ '[' ∧ (Char.ofNat n).toLower = Char.ofNat n ∧
        (Char.ofNat n ≠ ':' → isProtocolChar (Char.ofNat n) = true ∧
          isHostChar (Char.ofNat n) = true) := by decide +kernel
  have hc := hall c.toNat (isPlain_lt h)
  rw [Char.ofNat_toNat] at hc
  exact hc h

theorem plain_colon : Plain [':'] := by
  intro c hc
  rw [List.mem_singleton.mp hc]
  decide

theorem Plain.append {s t : List Char} (hs : Plain s) (ht : Plain t) : Plain (s ++ t) := by
  intro c hc
  exact (List.mem_append.mp hc).elim (hs c) (ht c)

theorem lower_of_plain {s : List Char} (h : Plain s) : s.map Char.toLower = s := by
  conv => rhs; rw [← List.map_id s]
  exact List.map_congr_left fun c hc => (isPlain_facts (h c hc)).2.2.2.2.2.2.1

theorem clean_of_plain {s : List Char} (h : ∀ c ∈ s, isPlain c = true ∨ c = '/') :
    clean s = s := by
  have hspace : ∀ c ∈ s, JsText.isSpace c = false := by
    intro c hc
    rcases h c hc with hplain | rfl
    · exact (isPlain_facts hplain).1
    · decide
  have hfront : s.takeWhile (fun c => !(['?', '#'].contains c)) = s := by
    rw [List.takeWhile_eq_self_iff]
    intro c hc
    rcases h c hc with hplain | rfl
    · rw [(isPlain_facts hplain).2.2.1]
      rfl
    · decide
  have hslash : s.map (fun c => if c = '\\' then '/' else c) = s := by
    conv => rhs; rw [← List.map_id s]
    refine List.map_congr_left fun c hc => if_neg ?_
    rcases h c hc with hplain | rfl
    · rintro rfl
      exact absurd (isPlain_facts hplain).2.1 (by decide)
    · decide
  rw [clean, JsText.trim_of_nonspace hspace]
  simp only [hfront, hslash, List.drop_length, List.append_nil]

theorem hostOf_of_plain {s : List Char} (h : Plain s) : hostOf s = s := by
  have hauthority : s.takeWhile (fun c => !(['/', '?', '#'].contains c)) = s := by
    rw [List.takeWhile_eq_self_iff]
    intro c hc
    rw [(isPlain_facts (h c hc)).2.2.2.1]
    rfl
  have hauth : s.rtakeWhile (· ≠ '@') = s := by
    rw [List.rtakeWhile_eq_self_iff]
    intro c hc
    exact decide_eq_true (isPlain_facts (h c hc)).2.2.2.2.1
  have hend : s.takeWhile (fun c => !endsHost c) = s := by
    rw [List.takeWhile_eq_self_iff]
    intro c hc
    rw [(isPlain_facts (h c hc)).2.1]
    rfl
  simp only [hostOf, hauthority, hauth, hend]

/-- A host with a port. -/
theorem splitPort_colon (name : List Char) {digits : List Char}
    (h : ∀ c ∈ digits, c.isDigit = true) :
    splitPort (name ++ ':' :: digits) = (name, if digits = [] then none else some digits) := by
  have hreverse : (name ++ ':' :: digits).reverse =
      digits.reverse ++ ':' :: name.reverse := by simp
  have hdigits : ∀ c ∈ digits.reverse, c.isDigit = true := fun c hc => h c (List.mem_reverse.mp hc)
  have hfront : (name ++ ':' :: digits).rdropWhile Char.isDigit = name ++ [':'] := by
    rw [List.rdropWhile, hreverse, List.dropWhile_append_of_pos hdigits,
      List.dropWhile_cons_of_neg (by decide)]
    simp
  have hback : (name ++ ':' :: digits).rtakeWhile Char.isDigit = digits := by
    rw [List.rtakeWhile, hreverse, List.takeWhile_append_of_pos hdigits,
      List.takeWhile_cons_of_neg (by decide)]
    simp
  simp [splitPort, hfront, hback]

/-- A host without a colon has no port. -/
theorem splitPort_noColon {host : List Char} (h : ':' ∉ host) : splitPort host = (host, none) := by
  have hlast : (host.rdropWhile Char.isDigit).getLast? ≠ some ':' := by
    intro hcolon
    exact h ((List.rdropWhile_prefix _ _).subset (List.mem_of_getLast? hcolon))
  simp only [splitPort, hlast, if_false]

theorem hostnameOf_of_plain {name : List Char} (h : Plain name) (hcolon : ':' ∉ name)
    (hlength : name.length ≤ 255) : hostnameOf name = name := by
  have hbracket : ¬ (name.head? = some '[' ∧ name.getLast? = some ']') := by
    rintro ⟨hhead, -⟩
    exact (isPlain_facts (h '[' (List.mem_of_head? hhead))).2.2.2.2.2.1 rfl
  have hall : name.takeWhile isHostChar = name := by
    rw [List.takeWhile_eq_self_iff]
    intro c hc
    exact ((isPlain_facts (h c hc)).2.2.2.2.2.2.2 fun heq => hcolon (heq ▸ hc)).2
  rw [hostnameOf, if_neg hbracket]
  simp only [hall, lower_of_plain h]
  exact if_neg (Nat.not_lt_of_le hlength)

theorem isProtocolChar_of_plain {s : List Char} (h : Plain s) (hcolon : ':' ∉ s) :
    ∀ c ∈ s, isProtocolChar c = true :=
  fun c hc => ((isPlain_facts (h c hc)).2.2.2.2.2.2.2 fun heq => hcolon (heq ▸ hc)).1

theorem splitProtocol_of_plain {proto rest : List Char} (h : Plain proto) (hne : proto ≠ [])
    (hcolon : ':' ∉ proto) :
    splitProtocol (proto ++ ':' :: rest) = some (proto ++ [':'], rest) := by
  have hproto := isProtocolChar_of_plain h hcolon
  have htake : (proto ++ ':' :: rest).takeWhile isProtocolChar = proto := by
    rw [List.takeWhile_append_of_pos hproto, List.takeWhile_cons_of_neg (by decide),
      List.append_nil]
  have hdrop : (proto ++ ':' :: rest).dropWhile isProtocolChar = ':' :: rest := by
    rw [List.dropWhile_append_of_pos hproto, List.dropWhile_cons_of_neg (by decide)]
  simp only [splitProtocol, htake, hdrop, hne, if_false]

/-! ## Hosts -/

/-- A text without a colon has no protocol. -/
theorem parse_noColon {s : List Char} (h : Plain s) (hcolon : ':' ∉ s) : parse s = {} := by
  have hdrop : s.dropWhile isProtocolChar = [] :=
    List.dropWhile_eq_nil_iff.mpr (isProtocolChar_of_plain h hcolon)
  have hsplit : splitProtocol s = none := by simp only [splitProtocol, hdrop]
  rw [parse, clean_of_plain fun c hc => .inl (h c hc), hsplit]

/-- The host behind two slashes. -/
theorem parse_slashed {proto rest : List Char} (hproto : Plain proto) (hne : proto ≠ [])
    (hcolon : ':' ∉ proto) (hhost : hostlessProtocol.contains (proto ++ [':']) = false)
    (hrest : Plain rest) :
    parse (proto ++ "://".toList ++ rest) =
      { protocol := some (proto ++ [':']), hostname := some (hostnameOf (splitPort rest).1),
        port := (splitPort rest).2 } := by
  have htext : proto ++ "://".toList ++ rest = proto ++ ':' :: ("//".toList ++ rest) := by simp
  have hclean : clean (proto ++ ':' :: ("//".toList ++ rest)) =
      proto ++ ':' :: ("//".toList ++ rest) := by
    apply clean_of_plain
    intro c hc
    rcases List.mem_append.mp hc with hc | hc
    · exact .inl (hproto c hc)
    · rcases List.mem_cons.mp hc with rfl | hc
      · exact .inl (by decide)
      · rcases List.mem_append.mp hc with hc | hc
        · exact .inr (by simpa using hc)
        · exact .inl (hrest c hc)
  have hlower := lower_of_plain (hproto.append plain_colon)
  have hslashes : "//".toList.isPrefixOf ("//".toList ++ rest) = true :=
    List.isPrefixOf_iff_prefix.mpr (List.prefix_append _ _)
  rw [htext, parse, hclean, splitProtocol_of_plain hproto hne hcolon]
  simp only [hlower, hhost, hslashes, Bool.not_false, Bool.true_or, Bool.and_self, if_true]
  rw [show ("//".toList ++ rest).drop 2 = rest from rfl, hostOf_of_plain hrest]

/-- The host behind a protocol that is written without slashes. -/
theorem parse_hostOnly {proto rest : List Char} (hproto : Plain proto) (hne : proto ≠ [])
    (hcolon : ':' ∉ proto) (hhost : hostlessProtocol.contains (proto ++ [':']) = false)
    (hslashed : slashedProtocol.contains (proto ++ [':']) = false) (hrest : Plain rest) :
    parse (proto ++ ':' :: rest) =
      { protocol := some (proto ++ [':']), hostname := some (hostnameOf (splitPort rest).1),
        port := (splitPort rest).2 } := by
  have hclean : clean (proto ++ ':' :: rest) = proto ++ ':' :: rest :=
    clean_of_plain fun c hc =>
      .inl ((hproto.append (plain_colon.append hrest)) c (by simpa using hc))
  have hlower := lower_of_plain (hproto.append plain_colon)
  have hslashes : "//".toList.isPrefixOf rest = false := by
    cases rest with
    | nil => rfl
    | cons c rest =>
        have hc : '/' ≠ c := by
          rintro rfl
          exact absurd (hrest '/' List.mem_cons_self) (by decide)
        simp [List.isPrefixOf, hc]
  rw [parse, hclean, splitProtocol_of_plain hproto hne hcolon]
  simp only [hlower, hhost, hslashes, hslashed, Bool.not_false, Bool.or_true, Bool.and_self,
    if_true, Bool.false_eq_true, if_false]
  rw [hostOf_of_plain hrest]

end Lib.LegacyUrl
