/-
ProxyBroker.Server.ControlHeadersTheorems — the headers that are for the
broker alone.

A client steers the broker with six 'Proxy-Select-*' headers, and
`onProxyRequest` takes them out of the handle's list by their lower-cased
key, however often they were sent. What is sent on is `build`, and that
is the list only if the handle still believes in its head:

* a later chunk that looks like TLS makes `build` return the bytes as
  they came, control headers and all;
* the header block is written into a buffer with one byte for each
  UTF-16 unit of its text. Where whole characters do not fill it, the
  rest is what the memory held before, so two equal requests differ.

`hidden_iff` says when neither happens. The list itself is right
whenever the locale lower-cases the names the client sent as the
broker's own (`lowered_iff_clean`), and a line that is cut off in the
buffer still has the name it began with (`name_of_prefix`), so no value
makes a removed header again.
-/
import ProxyBroker.Server.RetryTheorems
import ProxyBroker.Server.SocketHandleTheorems

namespace ProxyBroker.Server

open Lib SocketHandle

/-! ## Names -/

def controlKeys : List Text :=
  [headerKeyProxySelectLevel, headerKeyProxySelectSpeedLimit, headerKeyProxySelectSsl,
    headerKeyProxySelectFallback, headerKeyProxySelectCountry, headerKeyProxySelectProxy]

/-- The headers `onProxyRequest` sets at a level. -/
def levelKeys (options : Options) : List Text :=
  if options.level = 3 then [headerKeyProxyXForwardedFor, headerKeyProxyVia]
  else if options.level = 2 then [headerKeyProxyVia]
  else []

/-- What it takes away first. -/
def removedKeys (options : Options) : List Text := controlKeys ++ levelKeys options

/-- The same name, but for case and surrounding blanks. -/
def sameName (name key : Text) : Bool := toLowerCase (JsText.trim name) == toLowerCase key

def isControl (name : Text) : Bool := controlKeys.any (sameName name)

/-- The name of a header line. -/
def lineName (x : Text) : Text := JsText.beforeFirst ':' x

@[simp] theorem sameName_trim (name key : Text) :
    sameName (JsText.trim name) key = sameName name key := by
  rw [sameName, JsText.trim_trim]
  rfl

@[simp] theorem readLine_orgKey (host : Host) (x : Text) :
    (readLine host x).orgKey = JsText.trim (lineName x) := rfl

@[simp] theorem readLine_key (host : Host) (x : Text) :
    (readLine host x).key = host.toLocaleLowerCase (JsText.trim (lineName x)) := rfl

/-! ## The list `onProxyRequest` leaves -/

def forwardedForHeader (host : Host) (request : Request) : Header where
  key := host.toLocaleLowerCase headerKeyProxyXForwardedFor
  orgKey := headerKeyProxyXForwardedFor
  value := request.remoteAddress

def viaHeader (host : Host) (request : Request) : Header where
  key := host.toLocaleLowerCase headerKeyProxyVia
  orgKey := headerKeyProxyVia
  value := viaValue request

def levelHeaders (host : Host) (options : Options) (request : Request) : List Header :=
  if options.level = 3 then [forwardedForHeader host request, viaHeader host request]
  else if options.level = 2 then [viaHeader host request]
  else []

theorem levelHeaders_orgKey (host : Host) (options : Options) (request : Request) :
    (levelHeaders host options request).map Header.orgKey = levelKeys options := by
  unfold levelHeaders levelKeys
  split
  · rfl
  · split <;> rfl

/-- The key is one of those that are removed. -/
def isRemoved (host : Host) (options : Options) (key : Text) : Bool :=
  ((removedKeys options).map host.toLocaleLowerCase).contains key

theorem forwardedFor_ne_via {host : Host} (hhost : LowersAscii host) :
    host.toLocaleLowerCase headerKeyProxyXForwardedFor ≠
      host.toLocaleLowerCase headerKeyProxyVia := by
  rw [hhost.lower (by decide), hhost.lower (by decide)]
  decide

theorem foldl_removeHeader_headersList (host : Host) (keys : List Text) (h : SocketHandle) :
    (keys.foldl (removeHeader host) h).headersList =
      h.headersList.filter (fun e => !(keys.map host.toLocaleLowerCase).contains e.key) := by
  induction keys generalizing h with
  | nil => simp
  | cons key keys ih =>
      rw [List.foldl_cons, ih, removeHeader, List.filter_filter]
      congr 1
      funext e
      by_cases he : e.key = host.toLocaleLowerCase key <;> simp [he]

/-- The six removals are one. -/
theorem onProxyRequest_eq (host : Host) (options : Options) (handle : SocketHandle)
    (request : Request) :
    onProxyRequest host options handle request =
      let cleaned := controlKeys.foldl (removeHeader host) handle
      if options.level = 3 then
        (cleaned.setHeader host headerKeyProxyXForwardedFor request.remoteAddress).setHeader host
          headerKeyProxyVia (viaValue request)
      else if options.level = 2 then cleaned.setHeader host headerKeyProxyVia (viaValue request)
      else cleaned := rfl

/-- **The list in closed form**: what is not removed, and behind it what
the level asks for. -/
theorem onProxyRequest_headersList {host : Host} (hhost : LowersAscii host) (options : Options)
    (handle : SocketHandle) (request : Request) :
    (onProxyRequest host options handle request).headersList =
      handle.headersList.filter (fun e => !isRemoved host options e.key) ++
        levelHeaders host options request := by
  have hne := forwardedFor_ne_via hhost
  have hcontrol := foldl_removeHeader_headersList host controlKeys handle
  have hsplit : ∀ e : Header, isRemoved host options e.key =
      ((controlKeys.map host.toLocaleLowerCase).contains e.key ||
        ((levelKeys options).map host.toLocaleLowerCase).contains e.key) := by
    intro e
    simp [isRemoved, removedKeys]
  simp only [hsplit, Bool.not_or]
  rw [← List.filter_filter, List.filter_comm, ← hcontrol, onProxyRequest_eq]
  dsimp only
  generalize controlKeys.foldl (removeHeader host) handle = cleaned
  unfold levelKeys levelHeaders
  split
  · simp [setHeader, removeHeader, forwardedForHeader, viaHeader, hne, Bool.and_comm]
  · split
    · simp [setHeader, removeHeader, viaHeader]
    · simp

theorem sameRead_foldl_removeHeader (host : Host) (keys : List Text) (h : SocketHandle) :
    SameRead h (keys.foldl (removeHeader host) h) := by
  induction keys generalizing h with
  | nil => exact ⟨rfl, rfl, rfl, rfl⟩
  | cons key keys ih => exact (sameRead_removeHeader host h key).trans (ih _)

/-- Nothing but the list is edited. -/
theorem sameRead_onProxyRequest (host : Host) (options : Options) (handle : SocketHandle)
    (request : Request) :
    SameRead handle (onProxyRequest host options handle request) := by
  have hcleaned := sameRead_foldl_removeHeader host controlKeys handle
  rw [onProxyRequest_eq]
  dsimp only
  split
  · exact (hcleaned.trans (sameRead_setHeader ..)).trans (sameRead_setHeader ..)
  · split
    · exact hcleaned.trans (sameRead_setHeader ..)
    · exact hcleaned

/-! ## Requests -/

/-- A request as it reaches the broker: its head is complete in the first
chunk, and every header line has a colon. The other chunks come before
and behind the call of `onProxyRequest`. An address has no line end. -/
structure Incoming where
  chunk : Bytes
  head : Head
  before : List Bytes
  after : List Bytes
  request : Request
  complete : head? chunk = some head
  colons : head.Colons
  notTls : looksTls chunk = false
  remoteAddress_line : '\n' ∉ request.remoteAddress
  viaValue_line : '\n' ∉ viaValue request

/-- The handle of the request when all has come. -/
def served (host : Host) (options : Options) (i : Incoming) : Except JsException SocketHandle := do
  let handle ← feed host {} (i.chunk :: i.before)
  feed host (onProxyRequest host options handle i.request) i.after

namespace Incoming

def later (i : Incoming) : List Bytes := i.before ++ i.after

/-- The request with another header block. -/
def sent (i : Incoming) (block : Bytes) : Bytes :=
  Head.join ⟨i.head.query, block, i.head.body ++ (kept i.later).flatten⟩

/-- The list for the downstream. -/
def sentHeaders (host : Host) (options : Options) (i : Incoming) : List Header :=
  (i.head.lines.map (readLine host)).filter (fun e => !isRemoved host options e.key) ++
    levelHeaders host options i.request

end Incoming

/-- What a handle holds once the request is complete. -/
structure Serves (host : Host) (options : Options) (i : Incoming) (h : SocketHandle) : Prop where
  query : h.query = some i.head.query
  headersList : h.headersList = i.sentHeaders host options
  data : h.data = some (i.chunk ++ (kept i.later).flatten)
  body : h.body = some (i.head.body ++ (kept i.later).flatten)
  sslDetect : h.sslDetect = i.later.any looksTls

/-- The handle `onProxyRequest` is called with. -/
theorem read_head (host : Host) (i : Incoming) :
    ∃ handle, feed host {} (i.chunk :: i.before) = .ok handle ∧
      handle.query = some i.head.query ∧
      handle.headersList = i.head.lines.map (readLine host) ∧
      handle.data = some (i.chunk ++ (kept i.before).flatten) ∧
      handle.body = some (i.head.body ++ (kept i.before).flatten) ∧
      handle.sslDetect = i.before.any looksTls := by
  refine ⟨_, feed_read host i.notTls i.complete i.colons i.before, ?_, ?_, rfl, rfl, rfl⟩
  · simp [firstState]
  · simp [firstState]

/-- **The request is served**, and the edits of the list do not meet the
chunks, whichever of them come first. -/
theorem serves {host : Host} (hhost : LowersAscii host) (options : Options) (i : Incoming) :
    ∃ h, served host options i = .ok h ∧ Serves host options i h := by
  obtain ⟨handle, hread, hquery, hlist, hdata, hbody, hssl⟩ := read_head host i
  have hsame := sameRead_onProxyRequest host options handle i.request
  have hsent : (onProxyRequest host options handle i.request).headersList =
      i.sentHeaders host options := by
    rw [onProxyRequest_headersList hhost, hlist]
    rfl
  rw [← hsame.query] at hquery
  rw [← hsame.data] at hdata
  rw [← hsame.body] at hbody
  rw [← hsame.sslDetect] at hssl
  rw [served, hread]
  change ∃ h, feed host (onProxyRequest host options handle i.request) i.after = .ok h ∧ _
  have hkept := kept_append i.before i.after
  have hany : i.later.any looksTls = (i.before.any looksTls || i.after.any looksTls) :=
    List.any_append
  cases htls : i.before.any looksTls with
  | true =>
      rw [htls] at hssl hkept hany
      refine ⟨_, feed_tls host hssl i.after, hquery, hsent, ?_, ?_, ?_⟩
      · rw [hdata, Incoming.later, hkept]
        rfl
      · rw [hbody, Incoming.later, hkept]
        rfl
      · rw [hssl, hany]
        rfl
  | false =>
      rw [htls] at hssl hkept hany
      refine ⟨_, feed_later host hssl hdata i.after, hquery, hsent, ?_, ?_, ?_⟩
      · simp [Incoming.later, hkept, kept_eq_self htls]
      · simp [Incoming.later, hkept, hbody, kept_eq_self htls]
      · rw [hany]
        rfl

/-! ## What the list has to be -/

/-- The locale lower-cases the names that are to be removed as the
broker's own. -/
def Lowered (host : Host) (options : Options) (i : Incoming) : Prop :=
  ∀ x ∈ i.head.lines, (removedKeys options).any (sameName (lineName x)) = true →
    isRemoved host options (readLine host x).key = true

/-- No control header, and of the headers the level asks for ('Via' from
level 2, 'X-Forwarded-For' at level 3) the ones the proxy set. -/
structure Clean (host : Host) (options : Options) (request : Request) (list : List Header) :
    Prop where
  gone : ∀ e ∈ list, isControl e.orgKey = false
  unique : ∀ s ∈ levelHeaders host options request,
    list.filter (fun e => sameName e.orgKey s.orgKey) = [s]

instance (host : Host) (options : Options) (i : Incoming) : Decidable (Lowered host options i) :=
  List.decidableBAll _ _

theorem isControl_of_mem_levelKeys {options : Options} {key : Text}
    (h : key ∈ levelKeys options) : isControl key = false := by
  have hkeys : ∀ t ∈ [headerKeyProxyXForwardedFor, headerKeyProxyVia], isControl t = false := by
    decide
  unfold levelKeys at h
  split at h
  · exact hkeys key h
  · split at h
    · exact hkeys key (List.mem_cons_of_mem _ h)
    · cases h

theorem orgKey_mem_levelKeys {host : Host} {options : Options} {request : Request} {s : Header}
    (h : s ∈ levelHeaders host options request) : s.orgKey ∈ levelKeys options := by
  rw [← levelHeaders_orgKey host options request]
  exact List.mem_map_of_mem h

theorem isRemoved_levelHeaders {host : Host} {options : Options} {request : Request} {s : Header}
    (h : s ∈ levelHeaders host options request) : isRemoved host options s.key = true := by
  have hkey : ∀ t ∈ levelHeaders host options request,
      t.key = host.toLocaleLowerCase t.orgKey := by
    unfold levelHeaders
    split
    · simp [forwardedForHeader, viaHeader]
    · split <;> simp [viaHeader]
  rw [isRemoved, List.contains_iff_mem, hkey s h]
  exact List.mem_map_of_mem (List.mem_append_right _ (orgKey_mem_levelKeys h))

/-- The headers of a level have different names. -/
theorem levelHeaders_filter {host : Host} {options : Options} {request : Request} {s : Header}
    (h : s ∈ levelHeaders host options request) :
    (levelHeaders host options request).filter (fun e => sameName e.orgKey s.orgKey) = [s] := by
  have hvv : sameName headerKeyProxyVia headerKeyProxyVia = true := by decide
  have hxx : sameName headerKeyProxyXForwardedFor headerKeyProxyXForwardedFor = true := by decide
  have hvx : sameName headerKeyProxyVia headerKeyProxyXForwardedFor = false := by decide
  have hxv : sameName headerKeyProxyXForwardedFor headerKeyProxyVia = false := by decide
  unfold levelHeaders at h ⊢
  split at h
  · rename_i hthree
    rw [if_pos hthree]
    rcases List.mem_pair.mp h with rfl | rfl <;>
      simp [forwardedForHeader, viaHeader, hvv, hxx, hvx, hxv]
  · rename_i hthree
    rw [if_neg hthree]
    split at h
    · rename_i htwo
      rw [List.mem_singleton.mp h, if_pos htwo]
      simp [viaHeader, hvv]
    · cases h

/-- A name that is sent on is none of those to be removed, if the locale
lower-cases these as the broker does. -/
theorem Lowered.not_removed {host : Host} {options : Options} {i : Incoming}
    (hlower : Lowered host options i) {e : Header}
    (he : e ∈ (i.head.lines.map (readLine host)).filter (fun e => !isRemoved host options e.key))
    {key : Text} (hkey : key ∈ removedKeys options) : sameName e.orgKey key = false := by
  obtain ⟨he, hkept⟩ := List.mem_filter.mp he
  obtain ⟨x, hx, rfl⟩ := List.mem_map.mp he
  cases hsame : sameName (readLine host x).orgKey key with
  | false => rfl
  | true =>
      rw [readLine_orgKey, sameName_trim] at hsame
      have hgone := hlower x hx (List.any_eq_true.mpr ⟨key, hkey, hsame⟩)
      rw [hgone] at hkept
      cases hkept

theorem Lowered.clean {host : Host} {options : Options} {i : Incoming}
    (hlower : Lowered host options i) :
    Clean host options i.request (i.sentHeaders host options) where
  gone := by
    intro e he
    rcases List.mem_append.mp he with he | he
    · rw [isControl, List.any_eq_false]
      intro key hkey
      rw [hlower.not_removed he (List.mem_append_left _ hkey)]
      exact Bool.false_ne_true
    · exact isControl_of_mem_levelKeys (orgKey_mem_levelKeys he)
  unique := by
    intro s hs
    have hnone : ((i.head.lines.map (readLine host)).filter
        (fun e => !isRemoved host options e.key)).filter
        (fun e => sameName e.orgKey s.orgKey) = [] := by
      rw [List.filter_eq_nil_iff]
      intro e he
      rw [hlower.not_removed he (List.mem_append_right _ (orgKey_mem_levelKeys hs))]
      exact Bool.false_ne_true
    rw [Incoming.sentHeaders, List.filter_append, levelHeaders_filter hs, hnone, List.nil_append]

/-- A name the locale lower-cases otherwise stays in the list. -/
theorem Clean.lowered {host : Host} {options : Options} {i : Incoming}
    (hclean : Clean host options i.request (i.sentHeaders host options)) :
    Lowered host options i := by
  intro x hx hany
  by_contra hkept
  obtain ⟨key, hkey, hsame⟩ := List.any_eq_true.mp hany
  rw [← sameName_trim, ← readLine_orgKey host] at hsame
  have hmem : readLine host x ∈ i.sentHeaders host options :=
    List.mem_append_left _
      (List.mem_filter.mpr ⟨List.mem_map_of_mem hx, by simpa using hkept⟩)
  rcases List.mem_append.mp hkey with hcontrol | hlevel
  · have hgone := hclean.gone _ hmem
    rw [isControl, List.any_eq_false] at hgone
    exact hgone key hcontrol hsame
  · rw [← levelHeaders_orgKey host options i.request] at hlevel
    obtain ⟨s, hs, rfl⟩ := List.mem_map.mp hlevel
    have hfilter : readLine host x ∈
        (i.sentHeaders host options).filter (fun e => sameName e.orgKey s.orgKey) :=
      List.mem_filter.mpr ⟨hmem, hsame⟩
    rw [hclean.unique s hs, List.mem_singleton] at hfilter
    exact hkept (hfilter ▸ isRemoved_levelHeaders hs)

/-- **When the list is right.** -/
theorem lowered_iff_clean (host : Host) (options : Options) (i : Incoming) :
    Lowered host options i ↔ Clean host options i.request (i.sentHeaders host options) :=
  ⟨Lowered.clean, Clean.lowered⟩

/-! ## Lines that are sent -/

/-- A header as `build` writes it. -/
def entry (e : Header) : Text := e.orgKey ++ [':', ' '] ++ e.value

/-- One name, one value, one line. -/
structure OneLine (e : Header) : Prop where
  name : ':' ∉ e.orgKey
  line : indexOf? crlfText (entry e) = none

theorem oneLine_of {e : Header} (hname : ':' ∉ e.orgKey)
    (horgKey : indexOf? crlfText e.orgKey = none) (hvalue : indexOf? crlfText e.value = none) :
    OneLine e where
  name := hname
  line := by
    have hentry : entry e = e.orgKey ++ ':' :: ([] ++ ' ' :: e.value) := by
      rw [entry, List.append_assoc]
      rfl
    rw [hentry]
    refine indexOf?_append_cons_of_not_mem (by decide) (by decide) horgKey ?_
    exact indexOf?_append_cons_of_not_mem (by decide) (by decide) (by decide) hvalue

theorem readLine_oneLine (host : Host) {x : Text} (hx : indexOf? crlfText x = none) :
    OneLine (readLine host x) := by
  have hbefore : JsText.trim (lineName x) <:+: lineName x := JsText.trim_isInfix _
  have hafter : (readLine host x).value <:+: JsText.afterFirst ':' x :=
    (JsText.trim_isInfix _).trans (List.takeWhile_prefix _).isInfix
  have hvalue : JsText.afterFirst ':' x <:+: x :=
    (List.tail_suffix _).isInfix.trans (List.dropWhile_suffix _).isInfix
  refine oneLine_of ?_ ?_ ?_
  · exact fun h => JsText.not_mem_beforeFirst ':' x (hbefore.subset h)
  · exact indexOf?_eq_none_of_isInfix (by decide)
      (hbefore.trans (List.takeWhile_prefix _).isInfix) hx
  · exact indexOf?_eq_none_of_isInfix (by decide) (hafter.trans hvalue) hx

theorem indexOf?_crlfText_of_not_mem {t : Text} (h : '\n' ∉ t) : indexOf? crlfText t = none := by
  rw [indexOf?_eq_none_iff (by decide)]
  intro i hi
  exact h (List.mem_of_mem_drop (hi.subset (by decide)))

/-- **Every header that is sent is one line.** -/
theorem Incoming.sentHeaders_oneLine (host : Host) (options : Options) (i : Incoming) :
    ∀ e ∈ i.sentHeaders host options, OneLine e := by
  intro e he
  rcases List.mem_append.mp he with he | he
  · obtain ⟨x, hx, rfl⟩ := List.mem_map.mp (List.mem_of_mem_filter he)
    exact readLine_oneLine host (not_sep_of_mem_splitSeq (by decide) hx)
  · have hvia : OneLine (viaHeader host i.request) :=
      oneLine_of (show ':' ∉ headerKeyProxyVia by decide)
        (show indexOf? crlfText headerKeyProxyVia = none by decide)
        (indexOf?_crlfText_of_not_mem i.viaValue_line)
    have hforwarded : OneLine (forwardedForHeader host i.request) :=
      oneLine_of (show ':' ∉ headerKeyProxyXForwardedFor by decide)
        (show indexOf? crlfText headerKeyProxyXForwardedFor = none by decide)
        (indexOf?_crlfText_of_not_mem i.remoteAddress_line)
    unfold levelHeaders at he
    split at he
    · rcases List.mem_pair.mp he with rfl | rfl
      · exact hforwarded
      · exact hvia
    · split at he
      · rw [List.mem_singleton.mp he]
        exact hvia
      · cases he

/-- A line that is cut off behind its colon has its name. -/
theorem name_of_prefix {e : Header} (he : OneLine e) {p : Text} (hp : p <+: entry e ++ crlfText)
    (hcolon : ':' ∈ p) : lineName p = e.orgKey := by
  obtain ⟨a, b, rfl, ha⟩ := List.eq_append_cons_of_mem hcolon
  obtain ⟨r, hr⟩ := hp
  have hwhole : a ++ ':' :: (b ++ r) = e.orgKey ++ ':' :: (' ' :: (e.value ++ crlfText)) := by
    simpa [entry] using hr
  have hname := congrArg (JsText.beforeFirst ':') hwhole
  rw [JsText.beforeFirst_append_cons ha, JsText.beforeFirst_append_cons he.name] at hname
  rw [lineName, JsText.beforeFirst_append_cons ha, hname]

/-- **No value makes a removed header again**: every line of a beginning
of the text that is sent has the name of a header that is sent. -/
theorem name_of_mem_splitSeq {list : List Header} (hlist : ∀ e ∈ list, OneLine e) {p x : Text}
    (hp : p <+: strEntries list) (hx : x ∈ splitSeq crlfText p) (hcolon : ':' ∈ x) :
    ∃ e ∈ list, lineName x = e.orgKey := by
  have hlines : ∀ l ∈ list.map entry, indexOf? crlfText l = none := by
    intro l hl
    obtain ⟨e, he, rfl⟩ := List.mem_map.mp hl
    exact (hlist e he).line
  rcases prefix_of_mem_splitSeq (x := '\r') (t := ['\n']) (by decide) hlines hp hx with
    rfl | ⟨l, hl, hpre⟩
  · cases hcolon
  · obtain ⟨e, he, rfl⟩ := List.mem_map.mp hl
    exact ⟨e, he, name_of_prefix (hlist e he) hpre hcolon⟩

/-! ## The buffer of the header block -/

/-- Whole characters fill a buffer with one byte for each UTF-16 unit. -/
def Filled (text : Text) : Prop :=
  (Utf8.encodeFitting (Utf8.units text) text).length = Utf8.units text

instance (text : Text) : Decidable (Filled text) := inferInstanceAs (Decidable (_ = _))

theorem buildHeaders_of_filled (memory : Host) {list : List Header}
    (h : Filled (strEntries list)) :
    buildHeaders memory list =
      Utf8.encodeFitting (Utf8.units (strEntries list)) (strEntries list) := by
  have hlen := memory.uninitialised_length (Utf8.units (strEntries list))
  rw [buildHeaders, Utf8.write, hlen, h, List.drop_of_length_le (Nat.le_of_eq hlen),
    List.append_nil]

/-- Memory that was filled with one byte. -/
def memoryOf (b : UInt8) : Host where
  toLocaleLowerCase := id
  handle := id
  uninitialised n := List.replicate n b
  uninitialised_length _ := List.length_replicate

/-- **When the header block does not depend on the memory.** -/
theorem filled_iff (list : List Header) :
    Filled (strEntries list) ↔
      ∀ memory memory', buildHeaders memory list = buildHeaders memory' list := by
  constructor
  · intro h memory memory'
    rw [buildHeaders_of_filled memory h, buildHeaders_of_filled memory' h]
  · intro h
    have hbytes := h (memoryOf 0) (memoryOf 1)
    simp only [buildHeaders, Utf8.write, memoryOf, List.length_replicate, List.drop_replicate,
      List.append_cancel_left_eq, List.replicate_inj] at hbytes
    have hle := Utf8.encodeFitting_length_le (Utf8.units (strEntries list)) (strEntries list)
    have hrest := hbytes.2.resolve_right (by decide)
    unfold Filled
    omega

/-! ## What is sent -/

/-- What may leave the broker: a clean list, and no control header among
the lines between request line and body. -/
structure Hidden (host : Host) (options : Options) (i : Incoming) (h : SocketHandle) : Prop where
  clean : Clean host options i.request h.headersList
  unsent : ∀ memory : Host, ∃ block, build memory h = some (i.sent block) ∧
    ∀ x ∈ splitSeq crlfText (Utf8.decode block), ':' ∈ x → isControl (lineName x) = false

def NoControl (i : Incoming) : Prop := ∀ x ∈ i.head.lines, isControl (lineName x) = false

instance (i : Incoming) : Decidable (NoControl i) := List.decidableBAll _ _

namespace Serves

variable {host : Host} {options : Options} {i : Incoming} {h : SocketHandle}

theorem build_tls (hs : Serves host options i h) (htls : i.later.any looksTls = true)
    (memory : Host) : build memory h = some (i.sent i.head.block) := by
  have hssl := hs.sslDetect.trans htls
  have hchunk := Head.join_of_head? i.complete
  simp only [build, hs.query, hssl, if_true, hs.data, Incoming.sent, ← hchunk, Head.join]
  simp

theorem build_plain (hs : Serves host options i h) (htls : i.later.any looksTls = false)
    (memory : Host) :
    build memory h = some (i.sent (buildHeaders memory (i.sentHeaders host options))) := by
  have hssl := hs.sslDetect.trans htls
  simp [build, hs.query, hssl, hs.headersList, hs.body, Incoming.sent, Head.join]

theorem sent_inj {block block' : Bytes} (h : i.sent block = i.sent block') : block = block' := by
  simpa [Incoming.sent, Head.join] using h

/-- The bytes as they came hide nothing. -/
theorem unsent_tls (hs : Serves host options i h) (htls : i.later.any looksTls = true) :
    (∀ memory : Host, ∃ block, build memory h = some (i.sent block) ∧
      ∀ x ∈ splitSeq crlfText (Utf8.decode block), ':' ∈ x → isControl (lineName x) = false) ↔
      NoControl i := by
  constructor
  · intro hunsent x hx
    obtain ⟨block, hblock, hlines⟩ := hunsent (memoryOf 0)
    rw [hs.build_tls htls, Option.some.injEq] at hblock
    rw [← sent_inj hblock] at hlines
    exact hlines x hx (i.colons x hx)
  · intro hno memory
    exact ⟨i.head.block, hs.build_tls htls memory, fun x hx _ => hno x hx⟩

/-- In a buffer that is filled only names of the list stand. -/
theorem unsent_plain (hs : Serves host options i h) (htls : i.later.any looksTls = false)
    (hclean : Clean host options i.request (i.sentHeaders host options))
    (hfilled : Filled (strEntries (i.sentHeaders host options))) (memory : Host) :
    ∃ block, build memory h = some (i.sent block) ∧
      ∀ x ∈ splitSeq crlfText (Utf8.decode block), ':' ∈ x → isControl (lineName x) = false := by
  refine ⟨_, hs.build_plain htls memory, ?_⟩
  obtain ⟨p, hp, heq⟩ := Utf8.exists_encodeFitting_eq
    (Utf8.units (strEntries (i.sentHeaders host options)))
    (strEntries (i.sentHeaders host options))
  rw [buildHeaders_of_filled memory hfilled, heq, Utf8.decode_encode]
  intro x hx hcolon
  obtain ⟨e, he, hname⟩ :=
    name_of_mem_splitSeq (i.sentHeaders_oneLine host options) hp hx hcolon
  rw [hname]
  exact hclean.gone e he

end Serves

/-! ## Requests that differ in control headers -/

/-- Two requests that differ in control headers only. -/
structure DiffersOnly (i i' : Incoming) : Prop where
  query : i.head.query = i'.head.query
  lines : i.head.byteLines.filter (fun l => !isControl (lineName (Utf8.decode l))) =
    i'.head.byteLines.filter (fun l => !isControl (lineName (Utf8.decode l)))
  body : i.head.body = i'.head.body
  before : i.before = i'.before
  after : i.after = i'.after
  remoteAddress : i.request.remoteAddress = i'.request.remoteAddress
  viaValue : viaValue i.request = viaValue i'.request

namespace DiffersOnly

variable {i i' : Incoming}

theorem later (hd : DiffersOnly i i') : i.later = i'.later := by
  rw [Incoming.later, Incoming.later, hd.before, hd.after]

theorem sent (hd : DiffersOnly i i') (block : Bytes) : i.sent block = i'.sent block := by
  rw [Incoming.sent, Incoming.sent, hd.query, hd.body, hd.later]

/-- Without control headers they are the same. -/
theorem block (hd : DiffersOnly i i') (hno : NoControl i) (hno' : NoControl i') :
    i.head.block = i'.head.block := by
  have hfilter : ∀ j : Incoming, NoControl j →
      j.head.byteLines.filter (fun l => !isControl (lineName (Utf8.decode l))) =
        j.head.byteLines := by
    intro j hj
    rw [List.filter_eq_self]
    intro l hl
    have hx : Utf8.decode l ∈ j.head.lines := by
      rw [Head.lines_eq]
      exact List.mem_map_of_mem hl
    rw [hj _ hx]
    rfl
  have hlines := hd.lines
  rw [hfilter i hno, hfilter i' hno'] at hlines
  rw [← intercalate_splitSeq (show crlf ≠ [] by decide) i.head.block,
    ← intercalate_splitSeq (show crlf ≠ [] by decide) i'.head.block]
  exact congrArg crlf.intercalate hlines

end DiffersOnly

/-- A control line counts for nothing, if its name is removed. -/
theorem Lowered.sentHeaders_eq {host : Host} {options : Options} {i : Incoming}
    (hlower : Lowered host options i) :
    i.sentHeaders host options =
      ((((i.head.byteLines.filter (fun l => !isControl (lineName (Utf8.decode l)))).map
        Utf8.decode).map (readLine host)).filter (fun e => !isRemoved host options e.key)) ++
        levelHeaders host options i.request := by
  rw [Incoming.sentHeaders, Head.lines_eq]
  congr 1
  simp only [List.filter_map, List.filter_filter]
  congr 2
  refine List.filter_congr ?_
  intro l hl
  have hx : Utf8.decode l ∈ i.head.lines := by
    rw [Head.lines_eq]
    exact List.mem_map_of_mem hl
  cases hcontrol : isControl (lineName (Utf8.decode l)) with
  | false => simp
  | true =>
      obtain ⟨key, hkey, hsame⟩ := List.any_eq_true.mp hcontrol
      have hgone := hlower _ hx
        (List.any_eq_true.mpr ⟨key, List.mem_append_left _ hkey, hsame⟩)
      rw [readLine_key] at hgone
      simp [hgone]

/-- **The list is the same**, whatever control headers were sent. -/
theorem DiffersOnly.sentHeaders {host : Host} {options : Options} {i i' : Incoming}
    (hd : DiffersOnly i i') (hlower : Lowered host options i)
    (hlower' : Lowered host options i') :
    i.sentHeaders host options = i'.sentHeaders host options := by
  have hlevel : levelHeaders host options i.request = levelHeaders host options i'.request := by
    simp only [levelHeaders, forwardedForHeader, viaHeader, hd.remoteAddress, hd.viaValue]
  rw [hlower.sentHeaders_eq, hlower'.sentHeaders_eq, hd.lines, hlevel]

/-! ## When control headers stay in the broker -/

/-- **When control headers stay in the broker.** For two requests that
differ in them only, at every level: the lists are clean, no such header
is sent, and what is sent is the same, exactly when the locale lower-cases
the names in question as the broker's own and

* no later chunk looks like TLS and the text of the headers fills its
  buffer, or
* a later chunk does, and there was no control header. -/
theorem hidden_iff {host : Host} (hhost : LowersAscii host) (options : Options)
    {i i' : Incoming} (hdiff : DiffersOnly i i') :
    ∃ h h', served host options i = .ok h ∧ served host options i' = .ok h' ∧
      ((Hidden host options i h ∧ Hidden host options i' h' ∧
          ∀ memory memory', build memory h = build memory' h') ↔
        Lowered host options i ∧ Lowered host options i' ∧
          if i.later.any looksTls then NoControl i ∧ NoControl i'
          else Filled (strEntries (i.sentHeaders host options))) := by
  obtain ⟨h, hok, hs⟩ := serves hhost options i
  obtain ⟨h', hok', hs'⟩ := serves hhost options i'
  refine ⟨h, h', hok, hok', ?_⟩
  have hlater := hdiff.later
  constructor
  · rintro ⟨hhidden, hhidden', hbuild⟩
    have hlower : Lowered host options i :=
      (lowered_iff_clean host options i).mpr (hs.headersList ▸ hhidden.clean)
    have hlower' : Lowered host options i' :=
      (lowered_iff_clean host options i').mpr (hs'.headersList ▸ hhidden'.clean)
    refine ⟨hlower, hlower', ?_⟩
    split
    · rename_i htls
      exact ⟨(hs.unsent_tls htls).mp hhidden.unsent,
        (hs'.unsent_tls (hlater ▸ htls)).mp hhidden'.unsent⟩
    · rename_i htls
      rw [Bool.not_eq_true] at htls
      rw [filled_iff]
      intro memory memory'
      have heq := (hbuild memory memory').trans (hbuild memory' memory').symm
      rw [hs.build_plain htls, hs.build_plain htls, Option.some.injEq] at heq
      exact Serves.sent_inj heq
  · rintro ⟨hlower, hlower', hrest⟩
    have hclean : Clean host options i.request h.headersList := hs.headersList ▸ hlower.clean
    have hclean' : Clean host options i'.request h'.headersList := hs'.headersList ▸ hlower'.clean
    have hlists := hdiff.sentHeaders hlower hlower'
    cases htls : i.later.any looksTls with
    | true =>
        have htls' : i'.later.any looksTls = true := hlater ▸ htls
        rw [if_pos htls] at hrest
        obtain ⟨hno, hno'⟩ := hrest
        refine ⟨⟨hclean, (hs.unsent_tls htls).mpr hno⟩,
          ⟨hclean', (hs'.unsent_tls htls').mpr hno'⟩, ?_⟩
        intro memory memory'
        rw [hs.build_tls htls, hs'.build_tls htls', hdiff.block hno hno', hdiff.sent]
    | false =>
        have htls' : i'.later.any looksTls = false := hlater ▸ htls
        have hfilled : Filled (strEntries (i.sentHeaders host options)) := by
          simpa [htls] using hrest
        refine ⟨⟨hclean, hs.unsent_plain htls hlower.clean hfilled⟩,
          ⟨hclean', hs'.unsent_plain htls' hlower'.clean (hlists ▸ hfilled)⟩, ?_⟩
        intro memory memory'
        rw [hs.build_plain htls, hs'.build_plain htls', hdiff.sent, ← hlists,
          (filled_iff _).mp hfilled memory memory']

def exampleRequest : Request where
  headers := []
  remoteAddress := "10.0.0.7".toList
  localAddress := "10.0.0.1".toList
  localPort := "3128".toList
  url := []
  httpVersion := []

/-- A request with no control header. -/
def unsteered : Incoming where
  chunk := Utf8.encode "GET / HTTP/1.1\r\nA: b\r\n\r\n".toList
  head := ⟨Utf8.encode "GET / HTTP/1.1".toList, Utf8.encode "A: b".toList, []⟩
  before := []
  after := [[0x62]]
  request := exampleRequest
  complete := by decide
  colons := by decide
  notTls := by decide
  remoteAddress_line := by decide
  viaValue_line := by decide

/-- The same with one, sent twice. -/
def steered : Incoming where
  chunk := Utf8.encode
    "GET / HTTP/1.1\r\nPROXY-select-SSL : 1\r\nA: b\r\nProxy-Select-SSL:2\r\n\r\n".toList
  head := ⟨Utf8.encode "GET / HTTP/1.1".toList,
    Utf8.encode "PROXY-select-SSL : 1\r\nA: b\r\nProxy-Select-SSL:2".toList, []⟩
  before := []
  after := [[0x62]]
  request := exampleRequest
  complete := by decide
  colons := by decide
  notTls := by decide
  remoteAddress_line := by decide
  viaValue_line := by decide

theorem hidden_steered :
    ∃ h h', served Host.ascii {} unsteered = .ok h ∧ served Host.ascii {} steered = .ok h' ∧
      Hidden Host.ascii {} unsteered h ∧ Hidden Host.ascii {} steered h' ∧
        ∀ memory memory', build memory h = build memory' h' := by
  have hdiff : DiffersOnly unsteered steered := ⟨rfl, by decide, rfl, rfl, rfl, rfl, rfl⟩
  obtain ⟨h, h', hok, hok', hiff⟩ := hidden_iff lowersAscii_ascii {} hdiff
  exact ⟨h, h', hok, hok', hiff.mpr ⟨by decide, by decide, by decide⟩⟩

/-- A value with one character above ASCII. -/
def accented : Incoming where
  chunk := Utf8.encode "GET / HTTP/1.1\r\nA: é\r\n\r\n".toList
  head := ⟨Utf8.encode "GET / HTTP/1.1".toList, Utf8.encode "A: é".toList, []⟩
  before := []
  after := []
  request := exampleRequest
  complete := by decide
  colons := by decide
  notTls := by decide
  remoteAddress_line := by decide
  viaValue_line := by decide

/-- The same request twice, and the last byte of its head is what the
memory held. -/
theorem not_hidden :
    ¬ ∀ (options : Options) (i i' : Incoming) (h h' : SocketHandle),
      (∃ x ∈ i.head.lines, isControl (lineName x) = false) →
      (∃ x ∈ i'.head.lines, isControl (lineName x) = false) → DiffersOnly i i' →
      served Host.ascii options i = .ok h → served Host.ascii options i' = .ok h' →
        Hidden Host.ascii options i h ∧ Hidden Host.ascii options i' h' ∧
          ∀ memory memory', build memory h = build memory' h' := by
  intro hall
  obtain ⟨h, hok, hs⟩ := serves lowersAscii_ascii { level := 1 } accented
  have hline : ∃ x ∈ accented.head.lines, isControl (lineName x) = false := by decide
  obtain ⟨-, -, hbuild⟩ := hall { level := 1 } accented accented h h hline hline
    ⟨rfl, rfl, rfl, rfl, rfl, rfl, rfl⟩ hok hok
  have hfilled : Filled (strEntries (accented.sentHeaders Host.ascii { level := 1 })) := by
    rw [filled_iff]
    intro memory memory'
    have heq := hbuild memory memory'
    rw [hs.build_plain rfl, hs.build_plain rfl, Option.some.injEq] at heq
    exact Serves.sent_inj heq
  exact absurd hfilled (by decide)

end ProxyBroker.Server
