/-
ProxyBroker.Judge.BrokerLevelTheorems — what the judge says of a chain of
brokers (`LevelDetection` behind `ProxyServer.onProxyRequest`).

A broker is configured with a level, and the judge finds out levels. The
two meet when a request of the judge goes through brokers: the level the
judge detects is decided by the last broker that sets 'X-Forwarded-For'
and the last one that sets 'Via' (`judged_level`). So a transparent
broker behind another one hides the client again, and a broker may be
judged transparent for its own address in 'Via'.

The http server of the judge is not code of this repository: `Reads` says
what it makes of a message it accepts. The client itself reveals nothing
(`Unrevealing`).
-/
import ProxyBroker.Judge.LevelTheorems
import ProxyBroker.Server.BrokerChain
import ProxyBroker.Server.HeaderLines

namespace ProxyBroker.Judge

open Lib Server LevelDetection

/-! ## What the judge's server reads -/

/-- The name is an HTTP token. -/
def IsToken (name : Server.Text) : Prop := name ≠ [] ∧ name.all isTokenChar = true

instance (name : Server.Text) : Decidable (IsToken name) := inferInstanceAs (Decidable (_ ∧ _))

/-- Of a message with these headers, if it is not refused, the server gives
each header once: the name lower-cased, the value without the blanks
around it. -/
def Reads (readHeaders : Bytes → Option (List (Text × Text))) (message : Bytes)
    (headers : List (Text × Text)) : Prop :=
  ∀ hs, readHeaders message = some hs →
    hs.Perm (headers.map (fun e => (Server.toLowerCase e.1, JsText.trim e.2)))

/-! ## Clients that reveal nothing -/

/-- The judge would find nothing in these headers. A value is looked at as
far as brokers keep it. -/
structure Unrevealing (locals proxies : List Text) (headers : List (Text × Text)) : Prop where
  token : ∀ e ∈ headers, IsToken e.1
  values : ∀ e ∈ headers, Server.toLowerCase e.1 ∉ ignoreHeaders →
    ¬ OccursIn locals (cutValue e.2) ∧ ¬ OccursIn proxies (cutValue e.2)
  names : ∀ e ∈ headers, Server.toLowerCase e.1 ∉ httpForwardHeader ∧
    Server.toLowerCase e.1 ∉ httpViaHeader

variable {locals proxies : List Text} {headers : List (Text × Text)}

theorem Unrevealing.behind (h : Unrevealing locals proxies headers) (p : Text × Text → Bool) :
    Unrevealing locals proxies ((headers.map cutHeader).filter p) := by
  have hmem : ∀ e ∈ (headers.map cutHeader).filter p, ∃ o ∈ headers, e = cutHeader o := by
    intro e he
    obtain ⟨o, ho, rfl⟩ := List.mem_map.mp (List.mem_of_mem_filter he)
    exact ⟨o, ho, rfl⟩
  refine ⟨?_, ?_, ?_⟩
  · intro e he
    obtain ⟨o, ho, rfl⟩ := hmem e he
    exact h.token o ho
  · intro e he hname
    obtain ⟨o, ho, rfl⟩ := hmem e he
    rw [show cutValue (cutHeader o).2 = cutValue o.2 from cutValue_cutValue o.2]
    exact h.values o ho hname
  · intro e he
    obtain ⟨o, ho, rfl⟩ := hmem e he
    exact h.names o ho

/-! ## The headers of a trail -/

/-- What brokers have set. -/
def shown (t : Trail) : List Text := t.forwardedFor.toList ++ t.via.toList

/-- A trail as a broker leaves it. -/
structure Arrived (locals proxies : List Text) (t : Trail) : Prop where
  quiet : Unrevealing locals proxies t.own
  cut : ∀ e ∈ t.own, cutValue e.2 = e.2
  trimmed : ∀ v ∈ shown t, JsText.trim v = v

theorem arrived_behind {t : Trail} (h : Unrevealing locals proxies t.own) (hop : Hop) :
    Arrived locals proxies (t.behind hop) where
  quiet := h.behind _
  cut := by
    intro e he
    obtain ⟨o, -, rfl⟩ := List.mem_map.mp (List.mem_of_mem_filter he)
    exact cutValue_cutValue o.2
  trimmed := by
    have hcut : ∀ (x : Option Text), ∀ v ∈ (x.map cutValue).toList, JsText.trim v = v := by
      intro x v hv
      cases x with
      | none => cases hv
      | some w =>
          rw [List.mem_singleton.mp hv]
          exact JsText.trim_trim _
    intro v hv
    rcases List.mem_append.mp hv with hv | hv
    · simp only [Trail.behind] at hv
      split at hv
      · rw [List.mem_singleton.mp hv]
        exact hop.remoteAddress_trim
      · exact hcut _ v hv
    · simp only [Trail.behind] at hv
      split at hv
      · rw [List.mem_singleton.mp hv]
        exact hop.viaValue_trim
      · exact hcut _ v hv

theorem arrived_along {t : Trail} (h : Unrevealing locals proxies t.own) (hop : Hop)
    (hops : List Hop) : Arrived locals proxies (t.along (hop :: hops)) := by
  induction hops generalizing t hop with
  | nil => exact arrived_behind h hop
  | cons hop' hops ih => exact ih (arrived_behind h hop).quiet hop'

/-- The headers as the judge's server gives them. -/
def judged (t : Trail) : List (Text × Text) :=
  t.headers.map (fun e => (Server.toLowerCase e.1, e.2))

theorem mem_judged {t : Trail} {x : Text × Text} :
    x ∈ judged t ↔ (∃ e ∈ t.own, x = (Server.toLowerCase e.1, e.2)) ∨
      (∃ v ∈ t.forwardedFor, x = ("x-forwarded-for".toList, v)) ∨
        ∃ v ∈ t.via, x = ("via".toList, v) := by
  have hx : Server.toLowerCase headerKeyProxyXForwardedFor = "x-forwarded-for".toList := by decide
  have hv : Server.toLowerCase headerKeyProxyVia = "via".toList := by decide
  cases hforward : t.forwardedFor <;> cases hvia : t.via <;>
    simp [judged, Trail.headers, hforward, hvia, hx, hv, eq_comm]

theorem mem_shown {t : Trail} {v : Text} : v ∈ shown t ↔ v ∈ t.forwardedFor ∨ v ∈ t.via := by
  simp [shown]

theorem mem_received {x : Text × Text} {hs : List (Text × Text)} :
    x ∈ received hs ↔ x ∈ hs ∧ x.1 ∉ ignoreHeaders := by
  simp [received]

/-- What brokers set is looked at. -/
theorem mem_received_of_shown {t : Trail} {v : Text} (hv : v ∈ shown t) :
    ∃ x ∈ received (judged t), x.2 = v ∧ (x.1 = "x-forwarded-for".toList ∨ x.1 = "via".toList) := by
  have hkeys : "x-forwarded-for".toList ∉ ignoreHeaders ∧ "via".toList ∉ ignoreHeaders := by decide
  rcases mem_shown.mp hv with hv | hv
  · exact ⟨_, mem_received.mpr ⟨mem_judged.mpr (.inr (.inl ⟨v, hv, rfl⟩)), hkeys.1⟩, rfl, .inl rfl⟩
  · exact ⟨_, mem_received.mpr ⟨mem_judged.mpr (.inr (.inr ⟨v, hv, rfl⟩)), hkeys.2⟩, rfl, .inr rfl⟩

/-- The others are the client's. -/
theorem own_or_shown {t : Trail} {x : Text × Text} (hx : x ∈ received (judged t)) :
    (∃ e ∈ t.own, x = (Server.toLowerCase e.1, e.2) ∧ x.1 ∉ ignoreHeaders) ∨ x.2 ∈ shown t := by
  obtain ⟨hmem, hname⟩ := mem_received.mp hx
  rcases mem_judged.mp hmem with ⟨e, he, rfl⟩ | ⟨v, hv, rfl⟩ | ⟨v, hv, rfl⟩
  · exact .inl ⟨e, he, rfl, hname⟩
  · exact .inr (mem_shown.mpr (.inl hv))
  · exact .inr (mem_shown.mpr (.inr hv))

/-- **The level of a trail**: the client's headers give no reason, so it
is what brokers have set. -/
theorem levelOf_judged {lower : Text → Text}
    (hlower : ∀ name : Text, IsToken name → lower (Server.toLowerCase name) =
      Server.toLowerCase name) {t : Trail} (h : Arrived locals proxies t) :
    levelOf lower locals proxies (received (judged t)) =
      if ∃ v ∈ shown t, OccursIn locals v then 3 else if shown t ≠ [] then 2 else 1 := by
  have hown : ∀ e ∈ t.own, Server.toLowerCase e.1 ∉ ignoreHeaders →
      ¬ OccursIn locals e.2 ∧ ¬ OccursIn proxies e.2 := by
    intro e he hname
    rw [← h.cut e he]
    exact h.quiet.values e he hname
  have hlocal : (∃ x ∈ received (judged t), OccursIn locals x.2) ↔
      ∃ v ∈ shown t, OccursIn locals v := by
    constructor
    · rintro ⟨x, hx, hoccurs⟩
      rcases own_or_shown hx with ⟨e, he, rfl, hname⟩ | hv
      · exact absurd hoccurs (hown e he hname).1
      · exact ⟨x.2, hv, hoccurs⟩
    · rintro ⟨v, hv, hoccurs⟩
      obtain ⟨x, hx, rfl, -⟩ := mem_received_of_shown hv
      exact ⟨x, hx, hoccurs⟩
  have hquiet : (∀ x ∈ received (judged t), ¬ OccursIn proxies x.2 ∧
      httpForwardHeader.contains (lower x.1) = false ∧
      httpViaHeader.contains (lower x.1) = false) ↔ shown t = [] := by
    constructor
    · intro hall
      rw [List.eq_nil_iff_forall_not_mem]
      intro v hv
      obtain ⟨x, hx, -, hname⟩ := mem_received_of_shown hv
      obtain ⟨-, hforward, hvia⟩ := hall x hx
      have hx' : lower "x-forwarded-for".toList = "x-forwarded-for".toList :=
        hlower headerKeyProxyXForwardedFor (by decide)
      have hv' : lower "via".toList = "via".toList := hlower headerKeyProxyVia (by decide)
      rcases hname with hname | hname
      · rw [hname, hx'] at hforward
        exact absurd hforward (by decide)
      · rw [hname, hv'] at hvia
        exact absurd hvia (by decide)
    · intro hnil x hx
      rcases own_or_shown hx with ⟨e, he, rfl, hname⟩ | hv
      · obtain ⟨hforward, hvia⟩ := h.quiet.names e he
        rw [hlower e.1 (h.quiet.token e he)]
        exact ⟨(hown e he hname).2, by simpa using hforward, by simpa using hvia⟩
      · rw [hnil] at hv
        cases hv
  simp only [levelOf, hlocal, hquiet, ite_not]

/-! ## What the judge reads of a trail -/

/-- They are what brokers have trimmed. -/
theorem Arrived.headers_trimmed {t : Trail} (h : Arrived locals proxies t) :
    ∀ e ∈ t.headers, JsText.trim e.2 = e.2 := by
  intro e he
  simp only [Trail.headers, List.mem_append, Option.mem_toList] at he
  rcases he with he | he | he
  · rw [← h.cut e he]
    exact JsText.trim_trim _
  · obtain ⟨v, hv, rfl⟩ := Option.map_eq_some_iff.mp he
    exact h.trimmed v (mem_shown.mpr (.inl hv))
  · obtain ⟨v, hv, rfl⟩ := Option.map_eq_some_iff.mp he
    exact h.trimmed v (mem_shown.mpr (.inr hv))

theorem shown_behind (t : Trail) (hop : Hop) :
    shown (t.behind hop) ≠ [] ↔
      shown t ≠ [] ∨ hop.options.level = 3 ∨ hop.options.level = 2 := by
  by_cases hthree : hop.options.level = 3
  · simp [shown, Trail.behind, hthree]
  · by_cases htwo : hop.options.level = 2
    · simp [shown, Trail.behind, htwo]
    · simp only [shown, Trail.behind, hthree, htwo, if_false, or_self, or_false]
      cases t.forwardedFor <;> cases t.via <;> simp

/-- Something is shown as soon as one broker does. -/
theorem shown_along (t : Trail) (hops : List Hop) :
    shown (t.along hops) ≠ [] ↔
      shown t ≠ [] ∨ ∃ hop ∈ hops, hop.options.level = 3 ∨ hop.options.level = 2 := by
  induction hops generalizing t with
  | nil => simp [Trail.along]
  | cons hop hops ih =>
      have hnext := ih (t.behind hop)
      rw [shown_behind] at hnext
      refine hnext.trans ?_
      simp [or_assoc]

/-! ## The level of a chain -/

/-- **What the judge says of a chain of brokers.** For a client that
reveals nothing, and a message the judge's server accepts: transparent
exactly if what the last broker with level 3 or the last one that sets
'Via' has written is, as it arrives, the address the judge looks for; else
anonymous if there is a broker that sets a header, and elite if there is
none. -/
theorem judged_level {lower : Text → Text}
    (hlower : ∀ name : Text, IsToken name → lower (Server.toLowerCase name) =
      Server.toLowerCase name) (dns : DomainUtils) (proxyIp localIp : Text) (hop : Hop)
    (hops : List Hop) (m : OnePiece) (hhost : HasHost m.headers)
    (hquiet : Unrevealing (createAddrRegex dns localIp) (createAddrRegex dns proxyIp) m.headers)
    {readHeaders : Bytes → Option (List (Text × Text))}
    (hread : ∀ sent, relay (hop :: hops) m.chunk = .ok (some sent) →
      Reads readHeaders sent ({ own := m.headers : Trail }.along (hop :: hops)).headers) :
    ∃ sent, relay (hop :: hops) m.chunk = .ok (some sent) ∧
      ∀ hs, readHeaders sent = some hs →
        (runCalls lower dns proxyIp localIp [.addRecvHeader hs, .detect]).level =
          if ∃ v ∈ shown ({ own := m.headers : Trail }.along (hop :: hops)),
              OccursIn (createAddrRegex dns localIp) v then 3
          else if ∃ h ∈ hop :: hops, h.options.level = 3 ∨ h.options.level = 2 then 2
          else 1 := by
  have hsent := relay_headers hop hops m hhost
  refine ⟨_, hsent, ?_⟩
  intro hs hhs
  have hperm := hread _ hsent hs hhs
  have harrived := arrived_along (t := { own := m.headers }) hquiet hop hops
  generalize ht : ({ own := m.headers : Trail }.along (hop :: hops)) = t at harrived hperm ⊢
  have hjudged : hs.Perm (judged t) := by
    refine hperm.trans (List.Perm.of_eq (List.map_congr_left ?_))
    intro e he
    rw [harrived.headers_trimmed e he]
  have hlevel := (level_of_calls lower dns proxyIp localIp [.addRecvHeader hs]).1
  have hreceived : receivedBy [.addRecvHeader hs] = received hs := List.append_nil _
  have hfiltered : (received hs).Perm (received (judged t)) := hjudged.filter _
  rw [hreceived, levelOf_perm lower _ _ hfiltered] at hlevel
  refine hlevel.trans ?_
  have hshown : shown t ≠ [] ↔
      ∃ h ∈ hop :: hops, h.options.level = 3 ∨ h.options.level = 2 := by
    rw [← ht, shown_along]
    simp [shown]
  rw [levelOf_judged hlower harrived]
  simp only [hshown]

/-- A reader of heads to evaluate with. -/
def nodeHeaders (bytes : Bytes) : Option (List (Text × Text)) :=
  (head? bytes).map (fun head => head.lines.map (fun x =>
    (Server.toLowerCase (headerOf x).1, JsText.trim (headerOf x).2)))

/-- It reads what can be sent. -/
theorem reads_nodeHeaders {query body : Bytes} {headers : List (Text × Text)}
    (hquery : indexOf? crlf query = none) (hne : headers ≠ [])
    (hsend : ∀ e ∈ headers, Sendable e) :
    Reads nodeHeaders (messageOf query headers body) headers := by
  intro hs hhs
  rw [nodeHeaders, head?_messageOf hquery hne hsend, Option.map_some, lines_messageOf hne hsend,
    List.map_map, Option.some.injEq] at hhs
  refine List.Perm.of_eq (hhs.symm.trans (List.map_congr_left ?_))
  intro e he
  rw [Function.comp_apply, headerOf_lineOf (hsend e he)]
  rfl

def quietRequest : OnePiece where
  chunk := Utf8.encode "GET / HTTP/1.1\r\nHost: h\r\nAccept: a\r\n\r\n".toList
  head := ⟨Utf8.encode "GET / HTTP/1.1".toList, Utf8.encode "Host: h\r\nAccept: a".toList, []⟩
  complete := by decide
  colons := by decide
  notTls := by decide
  ascii := by
    have hlines : Head.lines ⟨Utf8.encode "GET / HTTP/1.1".toList,
        Utf8.encode "Host: h\r\nAccept: a".toList, []⟩ =
        ["Host: h".toList, "Accept: a".toList] := by decide +kernel
    rw [hlines]
    simp only [List.forall_mem_cons]
    decide

/-- A transparent broker that is asked by the broker before it. -/
def secondHop : Hop where
  host := Host.ascii
  options := { level := 3 }
  request := { exampleRequest with
    remoteAddress := "10.0.0.1".toList
    localAddress := "10.0.0.2".toList }
  lowers := lowers_ascii
  remoteAddress_ascii := rfl
  viaValue_ascii := rfl
  remoteAddress_line := fun h => absurd (List.elem_eq_true_of_mem h) Bool.false_ne_true
  viaValue_line := fun h => absurd (List.elem_eq_true_of_mem h) Bool.false_ne_true
  remoteAddress_trim := rfl
  viaValue_trim := rfl

def noNames : DomainUtils where
  domainLookup _ := none
  reverse _ := []

/-- Two transparent brokers are judged anonymous: the second one replaces
the address of the client. -/
theorem judged_level_two :
    ∃ sent hs, relay [exampleHop 3, secondHop] quietRequest.chunk = .ok (some sent) ∧
      nodeHeaders sent = some hs ∧
      (runCalls id noNames "10.0.0.2".toList "10.0.0.7".toList
          [.addRecvHeader hs, .detect]).level = 2 := by
  have hheaders : quietRequest.headers =
      [("Host".toList, " h".toList), ("Accept".toList, " a".toList)] := by decide +kernel
  have hquiet : Unrevealing (createAddrRegex noNames "10.0.0.7".toList)
      (createAddrRegex noNames "10.0.0.2".toList) quietRequest.headers := by
    rw [hheaders]
    exact ⟨by decide +kernel, by decide +kernel, by decide +kernel⟩
  have hhost : HasHost quietRequest.headers := by decide +kernel
  have hsendable := headersBehind_sendable (exampleHop 3) [secondHop] quietRequest hhost
  have hne := (hhost.along [exampleHop 3, secondHop]).ne_nil
  have hmessage := relay_headers (exampleHop 3) [secondHop] quietRequest hhost
  have hread : ∀ sent, relay [exampleHop 3, secondHop] quietRequest.chunk = .ok (some sent) →
      Reads nodeHeaders sent
        ({ own := quietRequest.headers : Trail }.along [exampleHop 3, secondHop]).headers := by
    intro sent hsent
    rw [hmessage, Except.ok.injEq, Option.some.injEq] at hsent
    rw [← hsent, ← headersBehind_own]
    exact reads_nodeHeaders quietRequest.query_line hne hsendable
  obtain ⟨sent, hsent, hlevel⟩ := @judged_level id (fun _ _ => rfl) noNames
    "10.0.0.2".toList "10.0.0.7".toList (exampleHop 3) [secondHop] quietRequest hhost hquiet _ hread
  have haccepted : (nodeHeaders sent).isSome = true := by
    rw [hmessage, Except.ok.injEq, Option.some.injEq] at hsent
    rw [← hsent, nodeHeaders, head?_messageOf quietRequest.query_line hne hsendable]
    rfl
  obtain ⟨hs, hhs⟩ := Option.isSome_iff_exists.mp haccepted
  refine ⟨sent, hs, hsent, hhs, (hlevel hs hhs).trans ?_⟩
  decide +kernel

end ProxyBroker.Judge
