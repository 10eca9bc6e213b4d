/-
ProxyBroker.Judge.LevelDetectionTheorems — what `detect` finds of the
local address.

The pattern looks at what stands behind the address and not at what
stands in front of it. A value is `Seen` when the address occurs with
white space, a colon or the end behind it; it has the address as a
`Token` when the occurrence is not glued to a digit or a dot on either
side. `judge_level_three`: the level is 3 exactly when a value is seen,
whatever `lastIndex` does in between, because `lastIndex` is 0 until the
first value is found (`detectHeaders_hasLocalIp`). `detect_token_iff`
says when this is the verdict on tokens.
-/
import ProxyBroker.Judge.LevelDetection

namespace ProxyBroker.Judge

open Lib

/-! ## Addresses -/

/-- An IPv4 address in dotted notation. -/
structure IPv4 where
  a : Fin 256
  b : Fin 256
  c : Fin 256
  d : Fin 256
  deriving DecidableEq, Repr

def octet (n : Fin 256) : Text := Nat.toDigits 10 n

def IPv4.text (ip : IPv4) : Text :=
  octet ip.a ++ '.' :: (octet ip.b ++ '.' :: (octet ip.c ++ '.' :: octet ip.d))

/-- The characters of an address. -/
def isAddrChar (c : Char) : Bool := c.isDigit || c = '.'

theorem octet_addrChar (n : Fin 256) {c : Char} (h : c ∈ octet n) : isAddrChar c = true := by
  unfold isAddrChar
  rw [Nat.isDigit_of_mem_toDigits (by decide) (by decide) h]
  rfl

theorem IPv4.text_addrChar (ip : IPv4) {c : Char} (h : c ∈ ip.text) : isAddrChar c = true := by
  simp only [IPv4.text, List.mem_append, List.mem_cons] at h
  rcases h with h | rfl | h | rfl | h | rfl | h
  · exact octet_addrChar _ h
  · rfl
  · exact octet_addrChar _ h
  · rfl
  · exact octet_addrChar _ h
  · rfl
  · exact octet_addrChar _ h

theorem isAddrChar_toNat {c : Char} (h : isAddrChar c = true) : 46 ≤ c.toNat ∧ c.toNat ≤ 57 := by
  simp only [isAddrChar, Bool.or_eq_true, decide_eq_true_eq] at h
  rcases h with h | rfl
  · simp only [Char.isDigit, Bool.and_eq_true, decide_eq_true_eq] at h
    have h1 : 48 ≤ c.toNat := h.1
    have h2 : c.toNat ≤ 57 := h.2
    omega
  · decide

/-- White space lies outside the range of digits and dot. -/
theorem not_isSpace_of_addrChar {c : Char} (h : isAddrChar c = true) :
    JsText.isSpace c = false := by
  have hn := isAddrChar_toNat h
  have hval : c.val.toNat = c.toNat := rfl
  rw [Bool.eq_false_iff]
  intro hs
  simp only [JsText.isSpace, List.mem_cons, List.not_mem_nil, or_false, Bool.or_eq_true,
    decide_eq_true_eq, Bool.and_eq_true, UInt32.le_iff_toNat_le, ← UInt32.toNat_inj] at hs
  have hcodes := by simpa using hs
  omega

theorem toNat_ofNat_of_lt {n : Nat} (h : n < 0xD800) : (Char.ofNat n).toNat = n := by
  unfold Char.ofNat
  rw [dif_pos (Or.inl h)]
  rfl

/-- Case folding does not mix anything with an address character. -/
theorem canonicalize_eq_iff {c d : Char} (hd : isAddrChar d = true) :
    canonicalize d = canonicalize c ↔ d = c := by
  have hdn := isAddrChar_toNat hd
  have hself : canonicalize d = d := by
    unfold canonicalize
    rw [if_neg (by omega)]
  rw [hself]
  constructor
  · intro h
    unfold canonicalize at h
    dsimp only at h
    split at h
    · rename_i hletter
      have hn := congrArg Char.toNat h
      rw [toNat_ofNat_of_lt (by omega)] at hn
      omega
    · exact h
  · rintro rfl
    exact hself.symm

theorem isPrefixOf_map_canonicalize {name : Text} (hname : ∀ c ∈ name, isAddrChar c = true)
    (s : Text) : name.map canonicalize <+: s.map canonicalize ↔ name <+: s := by
  induction name generalizing s with
  | nil => simp
  | cons c name ih =>
      cases s with
      | nil => simp
      | cons x s =>
          rw [List.map_cons, List.map_cons, List.cons_prefix_cons, List.cons_prefix_cons,
            canonicalize_eq_iff (hname c List.mem_cons_self),
            ih (fun y hy => hname y (List.mem_cons_of_mem c hy))]

/-! ## What the pattern finds -/

/-- The address with white space, a colon or the end behind it. -/
def Seen (ip v : Text) : Prop :=
  ∃ pre post, v = pre ++ ip ++ post ∧ (boundary post).isSome = true

theorem matchStart_single {ip : Text} (hip : ∀ c ∈ ip, isAddrChar c = true) (s : Text) :
    (matchStart [ip] s).isSome = true ↔
      ∃ post, s = ip ++ post ∧ (boundary post).isSome = true := by
  have hone : matchStart [ip] s = matchAlternative ip s := by
    unfold matchStart
    cases h : matchAlternative ip s <;> simp [h]
  rw [hone]
  unfold matchAlternative
  by_cases hpre : ip <+: s
  · rw [if_pos (List.isPrefixOf_iff_prefix.mpr ((isPrefixOf_map_canonicalize hip s).mpr hpre)),
      Option.isSome_map]
    obtain ⟨post, rfl⟩ := hpre
    rw [List.drop_left]
    constructor
    · intro h
      exact ⟨post, rfl, h⟩
    · intro hex
      obtain ⟨post', heq, h⟩ := hex
      rwa [List.append_cancel_left heq]
  · rw [if_neg (fun h =>
      hpre ((isPrefixOf_map_canonicalize hip s).mp (List.isPrefixOf_iff_prefix.mp h)))]
    constructor
    · intro h
      cases h
    · intro hex
      obtain ⟨post, heq, _⟩ := hex
      exact absurd (heq ▸ List.prefix_append ip post) hpre

/-- The search finds an occurrence anywhere in the text. -/
theorem searchFrom_isSome (names : List Text) (i : Nat) (s : Text) :
    (searchFrom names i s).isSome = true ↔
      ∃ pre rest, s = pre ++ rest ∧ (matchStart names rest).isSome = true := by
  induction s generalizing i with
  | nil =>
      unfold searchFrom
      cases hm : matchStart names [] with
      | some n =>
          constructor
          · intro _
            exact ⟨[], [], rfl, by rw [hm]; rfl⟩
          · intro _
            rfl
      | none =>
          constructor
          · intro h
            cases h
          · intro hex
            obtain ⟨pre, rest, heq, h⟩ := hex
            rw [(List.append_eq_nil_iff.mp heq.symm).2, hm] at h
            cases h
  | cons c s ih =>
      unfold searchFrom
      cases hm : matchStart names (c :: s) with
      | some n =>
          constructor
          · intro _
            exact ⟨[], c :: s, rfl, by rw [hm]; rfl⟩
          · intro _
            rfl
      | none =>
          dsimp only
          rw [ih]
          constructor
          · intro hex
            obtain ⟨pre, rest, heq, h⟩ := hex
            exact ⟨c :: pre, rest, by rw [heq]; rfl, h⟩
          · intro hex
            obtain ⟨pre, rest, heq, h⟩ := hex
            cases pre with
            | nil =>
                rw [← List.nil_append rest, ← heq, hm] at h
                cases h
            | cons x pre => exact ⟨pre, rest, (List.cons.inj heq).2, h⟩

theorem searchFrom_single {ip : Text} (hip : ∀ c ∈ ip, isAddrChar c = true) (v : Text) :
    (searchFrom [ip] 0 v).isSome = true ↔ Seen ip v := by
  rw [searchFrom_isSome]
  constructor
  · intro hex
    obtain ⟨pre, rest, heq, h⟩ := hex
    obtain ⟨post, hrest, hpost⟩ := (matchStart_single hip rest).mp h
    exact ⟨pre, post, by rw [heq, hrest, List.append_assoc], hpost⟩
  · intro hex
    obtain ⟨pre, post, heq, hpost⟩ := hex
    exact ⟨pre, ip ++ post, by rw [heq, List.append_assoc],
      (matchStart_single hip _).mpr ⟨post, rfl, hpost⟩⟩

/-! ## The loop -/

theorem test_of_lastIndex_zero (names : List Text) (value : Text) :
    (AddrRegex.test { names := names } value).1 = (searchFrom names 0 value).isSome ∧
      (AddrRegex.test { names := names } value).2.names = names ∧
      ((AddrRegex.test { names := names } value).1 = false →
        (AddrRegex.test { names := names } value).2 = { names := names }) := by
  unfold AddrRegex.test
  dsimp only
  rw [if_neg (Nat.not_lt_zero _), List.drop_zero]
  cases searchFrom names 0 value <;> simp

namespace LevelDetection

variable (toLocaleLowerCase : Text → Text)

/-- The counters only grow. -/
theorem detectHeaders_mono (headers : List Header) (d : LevelDetection) :
    d.stats.hasLocalIp ≤ (detectHeaders toLocaleLowerCase headers d).2.stats.hasLocalIp := by
  induction headers generalizing d with
  | nil => exact Nat.le_refl _
  | cons header headers ih =>
      unfold detectHeaders
      refine Nat.le_trans ?_ (ih _)
      exact Nat.le_add_right _ _

/-- **The loop finds the local address exactly when some value has a
match.** As long as none was found, every value is searched from its
start; once one was found, the count stays positive. -/
theorem detectHeaders_hasLocalIp (names : List Text) (headers : List Header)
    (hfresh : ∀ h ∈ headers, h.hasLocalIp = false) (d : LevelDetection)
    (hregex : d.localRegex = { names := names }) (hstats : d.stats.hasLocalIp = 0) :
    0 < (detectHeaders toLocaleLowerCase headers d).2.stats.hasLocalIp ↔
      ∃ h ∈ headers, (searchFrom names 0 h.value).isSome = true := by
  induction headers generalizing d with
  | nil => simp [detectHeaders, hstats]
  | cons header headers ih =>
      obtain ⟨hfound, -, hreset⟩ := test_of_lastIndex_zero names header.value
      have hflag : header.hasLocalIp = false := hfresh header List.mem_cons_self
      unfold detectHeaders
      rw [hregex]
      dsimp only
      cases ht : (AddrRegex.test { names := names } header.value).1 with
      | true =>
          have hmatch : (searchFrom names 0 header.value).isSome = true := by rw [← hfound, ht]
          constructor
          · intro _
            exact ⟨header, List.mem_cons_self, hmatch⟩
          · intro _
            refine Nat.lt_of_lt_of_le ?_ (detectHeaders_mono toLocaleLowerCase _ _)
            simp [countFlags, markHeader]
      | false =>
          have hmatch : (searchFrom names 0 header.value).isSome = false := by rw [← hfound, ht]
          rw [ih (fun h hh => hfresh h (List.mem_cons_of_mem _ hh)) _ (hreset ht)
            (by simp [countFlags, markHeader, hflag, hstats])]
          constructor
          · intro hex
            obtain ⟨h, hh, hs⟩ := hex
            exact ⟨h, List.mem_cons_of_mem _ hh, hs⟩
          · intro hex
            obtain ⟨h, hh, hs⟩ := hex
            rcases List.mem_cons.mp hh with rfl | hh
            · rw [hmatch] at hs
              cases hs
            · exact ⟨h, hh, hs⟩

/-- A detection from start to end: prepared, given the headers of one
request, and run. -/
def judge (dns : DomainUtils) (proxyIp localIp : Text) (headers : List (Text × Text)) :
    LevelDetection :=
  (({ proxyIp := proxyIp, localIp := localIp : LevelDetection }.prepare dns).addRecvHeader
    headers).detect toLocaleLowerCase

theorem detect_level_three (d : LevelDetection) :
    (d.detect toLocaleLowerCase).level = 3 ↔
      0 < (detectHeaders toLocaleLowerCase d.recvHeaders d).2.stats.hasLocalIp := by
  unfold detect
  dsimp only
  unfold hasLocalIP
  by_cases h : 0 < (detectHeaders toLocaleLowerCase d.recvHeaders d).2.stats.hasLocalIp
  · simp [h]
  · simp only [h, decide_false, Bool.not_false, if_true, Bool.true_and, iff_false]
    split <;> decide

/-- The level is 3 exactly when a received value is seen. -/
theorem judge_level_three {dns : DomainUtils} {ip : IPv4}
    (hdns : createAddrRegex dns ip.text = [ip.text]) (proxyIp : Text)
    (headers : List (Text × Text)) :
    (judge toLocaleLowerCase dns proxyIp ip.text headers).level = 3 ↔
      ∃ h ∈ received headers, Seen ip.text h.2 := by
  unfold judge
  rw [detect_level_three, detectHeaders_hasLocalIp toLocaleLowerCase [ip.text] _ ?_ _ ?_ rfl]
  · simp [addRecvHeader, prepare, received, searchFrom_single (fun c hc => ip.text_addrChar hc)]
  · intro h hh
    simp only [addRecvHeader, prepare, List.nil_append, List.mem_map] at hh
    obtain ⟨x, -, rfl⟩ := hh
    rfl
  · show ({ names := createAddrRegex dns ip.text } : AddrRegex) = _
    rw [hdns]

/-! ## Tokens -/

/-- Neither a digit nor a dot stands in front. -/
def freeLeft (pre : Text) : Bool := !pre.getLast?.any isAddrChar

/-- Neither a digit nor a dot stands behind. -/
def freeRight (post : Text) : Bool := !post.head?.any isAddrChar

/-- An occurrence of the address, by what stands around it. -/
def Occurs (ip : Text) (around : Text → Text → Bool) (v : Text) : Prop :=
  ∃ pre post, v = pre ++ ip ++ post ∧ around pre post = true

/-- A complete address token. -/
def Token (ip : Text) : Text → Prop :=
  Occurs ip (fun pre post => freeLeft pre && freeRight post)

/-- A token with white space, a colon or the end behind it. -/
def Plain (ip : Text) : Text → Prop :=
  Occurs ip (fun pre post => freeLeft pre && (boundary post).isSome)

/-- A token with something else behind it, as in 'ip, other' or
'for=ip;proto=http'. -/
def Missed (ip : Text) : Text → Prop :=
  Occurs ip (fun pre post => freeLeft pre && freeRight post && (boundary post).isNone)

/-- The end of a longer address, with white space, a colon or the end
behind it. -/
def Glued (ip : Text) : Text → Prop :=
  Occurs ip (fun pre post => !freeLeft pre && (boundary post).isSome)

/-- What the pattern accepts behind the address is no address character. -/
theorem freeRight_of_boundary {post : Text} (h : (boundary post).isSome = true) :
    freeRight post = true := by
  cases post with
  | nil => rfl
  | cons c post =>
      have hc : JsText.isSpace c = true ∨ c = ':' := by
        simp only [boundary] at h
        by_cases hcase : (JsText.isSpace c || decide (c = ':')) = true
        · simpa using hcase
        · rw [if_neg hcase] at h
          cases h
      have haddr : isAddrChar c = false := by
        cases haddr : isAddrChar c with
        | false => rfl
        | true =>
            rcases hc with hc | rfl
            · rw [not_isSpace_of_addrChar haddr] at hc
              cases hc
            · exact absurd haddr (by decide)
      simp [freeRight, haddr]

theorem seen_iff {ip v : Text} : Seen ip v ↔ Plain ip v ∨ Glued ip v := by
  constructor
  · intro hex
    obtain ⟨pre, post, heq, hb⟩ := hex
    cases hf : freeLeft pre with
    | true => exact .inl ⟨pre, post, heq, by simp [hf, hb]⟩
    | false => exact .inr ⟨pre, post, heq, by simp [hf, hb]⟩
  · intro h
    rcases h with ⟨pre, post, heq, h⟩ | ⟨pre, post, heq, h⟩ <;>
      exact ⟨pre, post, heq, (Bool.and_eq_true_iff.mp h).2⟩

theorem token_iff {ip v : Text} : Token ip v ↔ Plain ip v ∨ Missed ip v := by
  constructor
  · intro hex
    obtain ⟨pre, post, heq, h⟩ := hex
    cases hb : (boundary post).isSome with
    | true => exact .inl ⟨pre, post, heq, by simp [(Bool.and_eq_true_iff.mp h).1, hb]⟩
    | false =>
        refine .inr ⟨pre, post, heq, ?_⟩
        simp only [h, Bool.true_and]
        simpa using hb
  · intro h
    rcases h with ⟨pre, post, heq, h⟩ | ⟨pre, post, heq, h⟩
    · obtain ⟨hl, hb⟩ := Bool.and_eq_true_iff.mp h
      exact ⟨pre, post, heq, by simp [hl, freeRight_of_boundary hb]⟩
    · exact ⟨pre, post, heq, (Bool.and_eq_true_iff.mp h).1⟩

/-- **When the verdict is the verdict on tokens.** Level 3 means that
some received value has the local address as a token, exactly when some
value has it as a plain one, or the two ways to go wrong cancel out:
some value has a longer address that ends with it exactly when some
value has a token the pattern misses. -/
theorem detect_token_iff {dns : DomainUtils} {ip : IPv4}
    (hdns : createAddrRegex dns ip.text = [ip.text]) (proxyIp : Text)
    (headers : List (Text × Text)) :
    ((judge toLocaleLowerCase dns proxyIp ip.text headers).level = 3 ↔
        ∃ h ∈ received headers, Token ip.text h.2) ↔
      (∃ h ∈ received headers, Plain ip.text h.2) ∨
        ((∃ h ∈ received headers, Glued ip.text h.2) ↔
          ∃ h ∈ received headers, Missed ip.text h.2) := by
  rw [judge_level_three toLocaleLowerCase hdns]
  simp only [seen_iff, token_iff, and_or_left, exists_or]
  by_cases hplain : ∃ h ∈ received headers, Plain ip.text h.2
  · simp only [hplain, true_or]
  · simp only [hplain, false_or]

/-- Lookups that find nothing. -/
def noNames : DomainUtils where
  domainLookup _ := none
  reverse _ := []

def exampleIp : IPv4 where
  a := 10
  b := 0
  c := 0
  d := 1

theorem detect_token_bare :
    (judge id noNames [] exampleIp.text
      [("x-forwarded-for".toList, "10.0.0.1".toList)]).level = 3 :=
  ((detect_token_iff id rfl [] [("x-forwarded-for".toList, "10.0.0.1".toList)]).mpr
    (.inl ⟨_, List.mem_cons_self, [], [], by decide, rfl⟩)).mpr
      ⟨_, List.mem_cons_self, [], [], by decide, by decide⟩

/-- The first address of a comma list is not found. -/
theorem not_detect_token_list :
    ¬ ((judge id noNames [] exampleIp.text
          [("x-forwarded-for".toList, "10.0.0.1, 10.0.0.9".toList)]).level = 3 ↔
        ∃ h ∈ received [("x-forwarded-for".toList, "10.0.0.1, 10.0.0.9".toList)],
          Token exampleIp.text h.2) := by
  intro h
  have hlevel := h.mpr ⟨_, List.mem_cons_self, [], ", 10.0.0.9".toList, by decide, by decide⟩
  exact absurd hlevel (by decide)

end LevelDetection

end ProxyBroker.Judge
