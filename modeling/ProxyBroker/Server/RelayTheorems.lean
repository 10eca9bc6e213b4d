/-
ProxyBroker.Server.RelayTheorems — which client bytes reach the
downstream.

`run_schedule` computes a run: the head given to `pipeConnection`, then
the bytes that come after the connect callback. `Tracks` ties the handle
to the bytes it was given, so that `build` is the built head and the
bytes behind it (`build_of_tracks`). The two together say what is lost:
for a plain request the bytes that come while the downstream connects,
for a tunnel also the bytes before that (`relayed_iff`).

`run_eq_schedule` says that a schedule is no restriction: every run that
gets as far as the connect callback is one.
-/
import ProxyBroker.Server.Relay
import ProxyBroker.Server.SocketHandleTheorems

namespace ProxyBroker.Server

open Lib SocketHandle

namespace Relay

/-! ## Client events -/

theorem machine_step (host : Host) (r : Relay) (a : Action) :
    (machine host).step r a = step host r a := rfl

theorem run_client (host : Host) (r : Relay) (es : List Event) :
    (machine host).run r (es.map .client) =
      match runEvents host r.handle es with
      | .error _ => none
      | .ok handle => some { r with
          handle := handle
          downstream := r.downstream ++ (if r.connected then (chunks es).flatten else []) } := by
  induction es generalizing r with
  | nil => cases hr : r.connected <;> simp [runEvents, chunks, pure, Except.pure, ← hr]
  | cons e es ih =>
      rw [List.map_cons, Machine.run_cons, runEvents_cons, machine_step, step]
      cases he : handleEvent host r.handle e with
      | error x => rfl
      | ok h =>
          simp only [Option.bind_some, ih, Except.bind]
          cases hes : runEvents host h es with
          | error x => rfl
          | ok h' =>
              cases hr : r.connected with
              | false => simp
              | true =>
                  have hchunk : (chunks (e :: es)).flatten =
                      e.chunk?.getD [] ++ (chunks es).flatten := by
                    cases e <;> rfl
                  simp [hchunk]

theorem runEvents_append (host : Host) (h : SocketHandle) (es fs : List Event) :
    runEvents host h (es ++ fs) =
      (runEvents host h es).bind (fun h' => runEvents host h' fs) :=
  List.foldlM_append

/-! ## The handle and the stream -/

/-- The handle holds the bytes `s`, and a body it has is their end. -/
structure Tracks (h : SocketHandle) (s : Bytes) : Prop where
  data : h.data.getD [] = s
  head : ∀ q, h.query = some q → ∃ p b, h.data = some (p ++ b) ∧ h.body = some b

theorem tracks_frame {h h' : SocketHandle} {s : Bytes} (hsame : SameRead h h')
    (ht : Tracks h s) : Tracks h' s := by
  refine ⟨?_, ?_⟩
  · rw [hsame.data]
    exact ht.data
  · rw [hsame.query, hsame.data, hsame.body]
    exact ht.head

theorem onData_tracks {host : Host} {h h' : SocketHandle} {s c : Bytes}
    (hs : h.sslDetect = false) (ht : Tracks h s) (hc : looksTls c = false)
    (hok : onData host h c = .ok h') : h'.sslDetect = false ∧ Tracks h' (s ++ c) := by
  cases hd : h.data with
  | some old =>
      rw [onData_later host hs hc hd] at hok
      cases hok
      refine ⟨hs, ?_, ?_⟩
      · rw [← ht.data, hd]
        rfl
      · intro q hq
        obtain ⟨p, b, hpb, hb⟩ := ht.head q hq
        rw [hd, Option.some.injEq] at hpb
        exact ⟨p, b ++ c, by rw [hpb, List.append_assoc], by rw [hb]; rfl⟩
  | none =>
      have hnil : s = [] := by rw [← ht.data, hd]; rfl
      have hq : h.query = none := by
        cases hq : h.query with
        | none => rfl
        | some q =>
            obtain ⟨p, b, hpb, _⟩ := ht.head q hq
            rw [hd] at hpb
            cases hpb
      rw [onData_first host hs hc hd] at hok
      cases hhd : head? c with
      | none =>
          rw [hhd] at hok
          cases hok
          exact ⟨hs, by simp [hnil], by simp [hq]⟩
      | some hd' =>
          rw [hhd] at hok
          by_cases hcol : hd'.Colons
          · simp only [if_pos hcol] at hok
            cases hok
            obtain ⟨p, hp⟩ := head?_split hhd
            refine ⟨by simp [firstState, hs], by simp [firstState, hnil], ?_⟩
            intro q _
            exact ⟨p, hd'.body, by simp [firstState, ← hp], by simp [firstState]⟩
          · simp [if_neg hcol] at hok

/-- Once the handle has given up, it keeps what it had. -/
theorem runEvents_tls {host : Host} {h h' : SocketHandle} {es : List Event}
    (hs : h.sslDetect = true) (hok : runEvents host h es = .ok h') :
    h'.sslDetect = true ∧ h'.data = h.data := by
  induction es generalizing h with
  | nil => cases hok; exact ⟨hs, rfl⟩
  | cons e es ih =>
      rw [runEvents_cons] at hok
      have hstep : ∃ h1, handleEvent host h e = .ok h1 ∧ h1.sslDetect = true ∧
          h1.data = h.data := by
        by_cases he : ∃ c, e = .data c
        · obtain ⟨c, rfl⟩ := he
          exact ⟨_, onData_tls host (by simp [hs]), rfl, rfl⟩
        · obtain ⟨h1, hok1, hsame⟩ := handleEvent_frame host h (fun c hc => he ⟨c, hc⟩)
          exact ⟨h1, hok1, hsame.sslDetect.trans hs, hsame.data⟩
      obtain ⟨h1, hok1, hs1, hd1⟩ := hstep
      rw [hok1] at hok
      obtain ⟨hs2, hd2⟩ := ih hs1 hok
      exact ⟨hs2, hd2.trans hd1⟩

/-- **What the handle holds after a run**: the bytes it was given, or,
when a chunk looked like TLS, fewer. -/
theorem runEvents_tracks {host : Host} {h h' : SocketHandle} {s : Bytes} {es : List Event}
    (hs : h.sslDetect = false) (ht : Tracks h s) (hok : runEvents host h es = .ok h') :
    if (chunks es).any looksTls then
      h'.sslDetect = true ∧ (h'.data.getD []).length < (s ++ (chunks es).flatten).length
    else h'.sslDetect = false ∧ Tracks h' (s ++ (chunks es).flatten) := by
  induction es generalizing h s with
  | nil =>
      cases hok
      exact ⟨hs, by simpa [chunks] using ht⟩
  | cons e es ih =>
      rw [runEvents_cons] at hok
      by_cases he : ∃ c, e = .data c
      · obtain ⟨c, rfl⟩ := he
        cases hon : onData host h c with
        | error x => rw [handleEvent, hon] at hok; cases hok
        | ok h1 =>
            rw [handleEvent, hon] at hok
            rw [chunks_cons_data, List.any_cons, List.flatten_cons]
            cases hc : looksTls c with
            | true =>
                rw [onData_tls host (by simp [hc])] at hon
                cases hon
                obtain ⟨hs2, hd2⟩ := runEvents_tls rfl hok
                have hpos : 0 < c.length := by
                  cases c with
                  | nil => cases hc
                  | cons a c => exact Nat.succ_pos _
                rw [Bool.true_or, if_pos rfl, hd2, ht.data]
                refine ⟨hs2, ?_⟩
                simp only [List.length_append]
                omega
            | false =>
                obtain ⟨hs1, ht1⟩ := onData_tracks hs ht hc hon
                rw [Bool.false_or, ← List.append_assoc]
                exact ih hs1 ht1 hok
      · obtain ⟨h1, hok1, hsame⟩ := handleEvent_frame host h (fun c hc => he ⟨c, hc⟩)
        rw [hok1] at hok
        rw [chunks_cons_of_ne (fun c hc => he ⟨c, hc⟩)]
        exact ih (hsame.sslDetect.trans hs) (tracks_frame hsame ht) hok

/-- `build` is the built head and the bytes behind it. -/
theorem build_of_tracks (host : Host) {h : SocketHandle} {s : Bytes}
    (hs : h.sslDetect = false) (ht : Tracks h s) (r : Bytes) :
    builtHead host h ++ (s ++ r).drop (headBytes h) = (build host h).getD [] ++ r := by
  cases hq : h.query with
  | none => simp [builtHead, headBytes, build, hq, ← ht.data]
  | some q =>
      obtain ⟨p, b, hpb, hb⟩ := ht.head q hq
      have hsb : s = p ++ b := by rw [← ht.data, hpb]; rfl
      have hbytes : headBytes h = p.length := by simp [headBytes, hq, hs, hpb, hb]
      rw [hbytes, hsb]
      simp [builtHead, build, hq, hs, hb]

/-! ## Runs -/

/-- From the call on, the run is decided by the later chunks. -/
theorem run_piped (host : Host) {r : Relay} {head : Option Bytes} (hh : r.head = some head)
    (hc : r.connected = false) (hd : r.downstream = []) (window late : List Event) (x : Bytes) :
    (∃ r', (machine host).run r (window.map .client ++ .connect :: late.map .client) = some r' ∧
        r'.downstream = x) ↔
      (∃ h, runEvents host r.handle (window ++ late) = .ok h) ∧
        head.getD [] ++ (chunks late).flatten = x := by
  rw [Machine.run_append, run_client, runEvents_append]
  cases hw : runEvents host r.handle window with
  | error y => simp [Except.bind]
  | ok h1 =>
      simp only [Option.bind_some, Machine.run_cons, Except.bind, machine_step, step, hh, hc, hd,
        run_client]
      cases hl : runEvents host h1 late with
      | error y => simp
      | ok h2 => simp

theorem runEvents_append_ok {host : Host} {h h1 : SocketHandle} {es fs : List Event}
    (hes : runEvents host h es = .ok h1) :
    runEvents host h (es ++ fs) = runEvents host h1 fs := by
  rw [runEvents_append, hes]
  rfl

/-- A run around the call `pipeRequest`, cut at the call. -/
theorem run_request (host : Host) (s : Schedule) {h : SocketHandle}
    (hearly : runEvents host {} s.early = .ok h) (x : Bytes) :
    (∃ r, (machine host).run {} (s.actions .pipeRequest) = some r ∧ r.downstream = x) ↔
      (∃ h', runEvents host {} s.events = .ok h') ∧
        (build host h).getD [] ++ (chunks s.late).flatten = x := by
  rw [Schedule.actions, Machine.run_append, run_client]
  simp only [hearly, Option.bind_some, Machine.run_cons, machine_step, step, Option.isNone_none,
    if_true]
  rw [run_piped host rfl rfl rfl, Schedule.events, runEvents_append_ok hearly]

/-- The same for `pipeTunnel`. -/
theorem run_tunnel (host : Host) (before : List Event) (s : Schedule) (request : ConnectRequest)
    (head : Bytes) (x : Bytes) :
    (∃ r, (machine host).run {}
        (before.map .client ++ s.actions (.pipeTunnel request head)) = some r ∧
        r.downstream = x) ↔
      (∃ h', runEvents host {} (before ++ s.events) = .ok h') ∧
        Utf8.encode (connectStr request) ++ (chunks s.late).flatten = x := by
  rw [Schedule.actions, ← List.append_assoc, ← List.map_append, Machine.run_append, run_client,
    Schedule.events, ← List.append_assoc]
  cases hearly : runEvents host {} (before ++ s.early) with
  | error y =>
      rw [runEvents_append, hearly]
      simp [Except.bind]
  | ok h =>
      rw [runEvents_append_ok hearly]
      simp only [Option.bind_some, Machine.run_cons, machine_step, step, Option.isNone_none,
        if_true]
      rw [run_piped host rfl rfl rfl]
      rfl

theorem chunks_events (s : Schedule) : (chunks s.events).flatten =
    (chunks s.early).flatten ++ ((chunks s.window).flatten ++ (chunks s.late).flatten) := by
  rw [Schedule.events, chunks_append, chunks_append, List.flatten_append, List.flatten_append]

/-- **A plain request**: every byte arrives exactly when no chunk ends
the process, none of the chunks before the call looks like TLS, and none
comes while the downstream connects. -/
theorem requestRelayed_iff (host : Host) (s : Schedule) :
    RequestRelayed host s ↔
      (∀ c, (chunks s.events).head? = some c → ¬ Malformed c) ∧
        (chunks s.early).any looksTls = false ∧ (chunks s.window).flatten = [] := by
  have htracks := fun h (hok : runEvents host {} s.early = .ok h) =>
    runEvents_tracks (s := []) rfl ⟨rfl, by simp⟩ hok
  rw [← runEvents_ok_iff host]
  constructor
  · intro hex
    obtain ⟨h, r, hearly, hrun, hdown⟩ := hex
    obtain ⟨hok, heq⟩ := (run_request host s hearly _).mp ⟨r, hrun, hdown⟩
    have ht := htracks h hearly
    refine ⟨hok, ?_⟩
    cases htls : (chunks s.early).any looksTls with
    | true =>
        rw [if_pos htls, List.nil_append] at ht
        have hbuild : build host h = h.data := by
          unfold build
          cases h.query <;> simp [ht.1]
        have hhead : builtHead host h = [] := by
          unfold builtHead
          cases h.query <;> simp [ht.1]
        have hlen := congrArg List.length heq
        simp only [hbuild, hhead, headBytes, ht.1, Bool.or_true, if_true, List.drop_zero,
          chunks_events, List.nil_append, List.length_append] at hlen
        omega
    | false =>
        rw [htls, List.nil_append] at ht
        obtain ⟨hs, ht⟩ := ht
        rw [chunks_events, build_of_tracks host hs ht, List.append_cancel_left_eq] at heq
        have hlen := congrArg List.length heq
        rw [List.length_append] at hlen
        exact ⟨rfl, List.length_eq_zero_iff.mp (by omega)⟩
  · intro hex
    obtain ⟨⟨h', hok⟩, htls, hwindow⟩ := hex
    cases hearly : runEvents host {} s.early with
    | error y =>
        rw [Schedule.events, runEvents_append, hearly] at hok
        cases hok
    | ok h =>
        have ht := htracks h hearly
        rw [htls, List.nil_append] at ht
        obtain ⟨hs, ht⟩ := ht
        have heq : (build host h).getD [] ++ (chunks s.late).flatten =
            builtHead host h ++ (chunks s.events).flatten.drop (headBytes h) := by
          rw [chunks_events, build_of_tracks host hs ht, hwindow, List.nil_append]
        obtain ⟨r, hrun, hdown⟩ := (run_request host s hearly _).mpr ⟨⟨h', hok⟩, heq⟩
        exact ⟨h, r, hearly, hrun, hdown⟩

/-- **A tunnel**: every byte arrives exactly when no chunk ends the
process, Node read nothing behind the request, and nothing comes before
the downstream is connected. -/
theorem tunnelRelayed_iff (host : Host) (before : List Event) (s : Schedule)
    (request : ConnectRequest) (head : Bytes) :
    TunnelRelayed host before s request head ↔
      (∀ c, (chunks (before ++ s.events)).head? = some c → ¬ Malformed c) ∧
        head = [] ∧ (chunks s.early).flatten = [] ∧ (chunks s.window).flatten = [] := by
  rw [TunnelRelayed, run_tunnel, runEvents_ok_iff, chunks_events, List.append_assoc,
    List.append_cancel_left_eq]
  refine and_congr_right fun _ => ?_
  constructor
  · intro heq
    have hlen := congrArg List.length heq
    simp only [List.length_append] at hlen
    refine ⟨?_, ?_, ?_⟩ <;> exact List.length_eq_zero_iff.mp (by omega)
  · intro hex
    obtain ⟨hhead, hearly, hwindow⟩ := hex
    simp [hhead, hearly, hwindow]

/-- **What a relay loses.** A request is relayed whole exactly when no
chunk ends the process and

* plain HTTP: no chunk before the call looks like TLS, and no byte comes
  between the call and the connect callback;
* CONNECT: Node read nothing behind the request, and no byte comes
  between the 'connect' event and the connect callback. -/
theorem relayed_iff (host : Host) :
    (∀ s, RequestRelayed host s ↔
      (∀ c, (chunks s.events).head? = some c → ¬ Malformed c) ∧
        (chunks s.early).any looksTls = false ∧ (chunks s.window).flatten = []) ∧
    (∀ before s request head, TunnelRelayed host before s request head ↔
      (∀ c, (chunks (before ++ s.events)).head? = some c → ¬ Malformed c) ∧
        head = [] ∧ (chunks s.early).flatten = [] ∧ (chunks s.window).flatten = []) :=
  ⟨requestRelayed_iff host, tunnelRelayed_iff host⟩

/-- One byte of body between `build` and the connect callback, and one
byte behind a CONNECT request: both are lost. -/
theorem not_relayed :
    ¬ RequestRelayed Host.ascii
        { early := [.data (Utf8.encode "PUT / HTTP/1.1\r\nA: b\r\n\r\n".toList)]
          window := [.data [0x62]]
          late := [] } ∧
      ¬ TunnelRelayed Host.ascii
        [.data (Utf8.encode "CONNECT h:1 HTTP/1.1\r\nA: b\r\n\r\nb".toList)]
        { early := [], window := [], late := [] }
        { url := "h:1".toList, httpVersion := "1.1".toList } [0x62] := by
  refine ⟨fun h => ?_, fun h => ?_⟩
  · have hwindow := ((requestRelayed_iff _ _).mp h).2.2
    exact absurd hwindow (by decide)
  · have hhead := ((tunnelRelayed_iff _ _ _ _ _).mp h).2.1
    exact absurd hhead (by decide)

/-! ## Every run is a schedule -/

/-- A step that is no client event changes `head` or `connected`, and is
possible once only. -/
theorem step_cases {host : Host} {r r' : Relay} {a : Action} (h : step host r a = some r') :
    (∃ e, a = .client e ∧ r'.head = r.head ∧ r'.connected = r.connected) ∨
      ((a = .pipeRequest ∨ ∃ request head, a = .pipeTunnel request head) ∧ r.head = none ∧
        r'.head ≠ none ∧ r'.connected = r.connected) ∨
      (a = .connect ∧ r.head ≠ none ∧ r.connected = false ∧ r'.head = r.head ∧
        r'.connected = true) := by
  cases a with
  | client e =>
      simp only [step] at h
      split at h
      · cases h
      · cases h
        exact .inl ⟨e, rfl, rfl, rfl⟩
  | pipeRequest =>
      simp only [step] at h
      split at h
      · rename_i hnone
        cases h
        exact .inr (.inl ⟨.inl rfl, by simpa using hnone, by simp, rfl⟩)
      · cases h
  | pipeTunnel request head =>
      simp only [step] at h
      split at h
      · rename_i hnone
        cases h
        exact .inr (.inl ⟨.inr ⟨request, head, rfl⟩, by simpa using hnone, by simp, rfl⟩)
      · cases h
  | connect =>
      simp only [step] at h
      split at h
      · rename_i hd hhead hconn
        cases h
        exact .inr (.inr ⟨rfl, by simp [hhead], hconn, rfl, rfl⟩)
      · cases h

theorem run_connected {host : Host} {r r' : Relay} {as : List Action} (hh : r.head ≠ none)
    (hc : r.connected = true) (h : (machine host).run r as = some r') :
    ∃ late : List Event, as = late.map .client := by
  induction as generalizing r with
  | nil => exact ⟨[], rfl⟩
  | cons a as ih =>
      obtain ⟨r1, h1, h2⟩ := (Machine.run_cons_eq_some _).mp h
      rcases step_cases h1 with ⟨e, rfl, hh1, hc1⟩ | ⟨-, hnone, -⟩ | ⟨-, -, hconn, -⟩
      · obtain ⟨late, rfl⟩ := ih (by rwa [hh1]) (by rwa [hc1]) h2
        exact ⟨e :: late, rfl⟩
      · exact absurd hnone hh
      · rw [hc] at hconn
        cases hconn

theorem run_connecting {host : Host} {r r' : Relay} {as : List Action} (hh : r.head ≠ none)
    (hc : r.connected = false) (h : (machine host).run r as = some r') (hc' : r'.connected = true) :
    ∃ window late : List Event, as = window.map .client ++ .connect :: late.map .client := by
  induction as generalizing r with
  | nil =>
      cases h
      rw [hc] at hc'
      cases hc'
  | cons a as ih =>
      obtain ⟨r1, h1, h2⟩ := (Machine.run_cons_eq_some _).mp h
      rcases step_cases h1 with ⟨e, rfl, hh1, hc1⟩ | ⟨-, hnone, -⟩ | ⟨rfl, -, -, hh1, hc1⟩
      · obtain ⟨window, late, rfl⟩ := ih (by rwa [hh1]) (by rwa [hc1]) h2
        exact ⟨e :: window, late, rfl⟩
      · exact absurd hnone hh
      · obtain ⟨late, rfl⟩ := run_connected (by rwa [hh1]) hc1 h2
        exact ⟨[], late, rfl⟩

/-- **A schedule is no restriction**: every run that gets as far as the
connect callback is the run of one. -/
theorem run_eq_schedule {host : Host} {r : Relay} {as : List Action}
    (h : (machine host).run {} as = some r) (hc : r.connected = true) :
    ∃ s : Schedule, as = s.actions .pipeRequest ∨
      ∃ request head, as = s.actions (.pipeTunnel request head) := by
  have key : ∀ r0 : Relay, r0.head = none → r0.connected = false →
      (machine host).run r0 as = some r →
      ∃ (early : List Event) (pipe : Action) (window late : List Event),
        (pipe = .pipeRequest ∨ ∃ request head, pipe = .pipeTunnel request head) ∧
        as = early.map .client ++ pipe :: (window.map .client ++ .connect :: late.map .client) := by
    clear h
    induction as with
    | nil =>
        intro r0 _ hc0 h
        cases h
        rw [hc0] at hc
        cases hc
    | cons a as ih =>
        intro r0 hh0 hc0 h
        obtain ⟨r1, h1, h2⟩ := (Machine.run_cons_eq_some _).mp h
        rcases step_cases h1 with ⟨e, rfl, hh1, hc1⟩ | ⟨hpipe, -, hh1, hc1⟩ | ⟨-, hne, -⟩
        · obtain ⟨early, pipe, window, late, hpipe, rfl⟩ :=
            ih r1 (hh1.trans hh0) (hc1.trans hc0) h2
          exact ⟨e :: early, pipe, window, late, hpipe, rfl⟩
        · obtain ⟨window, late, rfl⟩ := run_connecting hh1 (hc1.trans hc0) h2 hc
          exact ⟨[], a, window, late, hpipe, rfl⟩
        · exact absurd hh0 hne
  obtain ⟨early, pipe, window, late, hpipe, rfl⟩ := key {} rfl rfl h
  refine ⟨⟨early, window, late⟩, ?_⟩
  rcases hpipe with rfl | ⟨request, head, rfl⟩
  · exact .inl rfl
  · exact .inr ⟨request, head, rfl⟩

end Relay

end ProxyBroker.Server
