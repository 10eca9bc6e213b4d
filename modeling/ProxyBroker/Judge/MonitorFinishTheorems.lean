/-
ProxyBroker.Judge.MonitorFinishTheorems — how often a monitor finishes.

`on_appends` says once what every listener writes into the log
(`written`); all that follows about the log is read off it. 'finished' is
emitted, with a closing entry, at every error of the stream or of the
request and at every close (`closings_run`, `emitted_run`), since
`finished` does not look at the flag it sets.

`FinishesOnce` is what is to be expected of a monitor: one closing entry,
one 'finished' at most, and behind it no change of the log, the end and
the duration. `finishesOnce_iff` gives the sequences of events it holds
for: one event finishes, and behind it all are silent.

`on_abs` relates this monitor to that of `Requests`.
-/
import ProxyBroker.Judge.RequestResponseMonitor

namespace ProxyBroker.Judge

open Lib Server Proxy

namespace RequestResponseMonitor

/-! ## What is written -/

/-- `handleError` makes an entry for a new error with this message. -/
def noted (message : Text) : Option Message :=
  if Monitor.mentions "ECONNREFUSED" message then some .err03
  else if Monitor.mentions "ESOCKETTIMEDOUT" message ||
      Monitor.mentions "Timeout awaiting" message then some .err04
  else if Monitor.mentions "socket hang up" message then some .err05
  else none

namespace Monitor

/-- `m'` has the log of `m` and behind it entries with these messages. -/
def Appends (m m' : Monitor) (messages : List Message) : Prop :=
  ∃ added, m'.logArr = m.logArr ++ added ∧ added.map (·.message) = messages

theorem Appends.refl (m : Monitor) : Appends m m [] := ⟨[], by simp, rfl⟩

theorem Appends.trans {m m' m'' : Monitor} {xs ys : List Message} (h : Appends m m' xs)
    (h' : Appends m' m'' ys) : Appends m m'' (xs ++ ys) := by
  obtain ⟨added, hlog, hmessages⟩ := h
  obtain ⟨added', hlog', hmessages'⟩ := h'
  exact ⟨added ++ added', by rw [hlog', hlog, List.append_assoc], by
    rw [List.map_append, hmessages, hmessages']⟩

theorem appends_addLog (mark : Char) (m : Monitor) (message : Message) :
    Appends m (m.addLog mark message) [message] := ⟨_, rfl, rfl⟩

theorem entries_message (mark : Char) (nr : Nat) (messages : List Message) :
    (entries mark nr messages).map (·.message) = messages := by
  induction messages generalizing nr with
  | nil => rfl
  | cons x xs ih => rw [entries, List.map_cons, ih]

theorem appends_foldl {β : Type} (mark : Char) (f : β → Message) (xs : List β) (m : Monitor) :
    Appends m (xs.foldl (fun m x => m.addLog mark (f x)) m) (xs.map f) := by
  rw [foldl_addLog]
  exact ⟨_, rfl, entries_message _ _ _⟩

/-- What `handleError` writes. -/
def errorMessages (m : Monitor) (e : JudgeError) : List Message :=
  if m.knows e.message then [] else (noted e.message).toList

/-- What `finished` writes. -/
def finishMessages (now : Nat) (m : Monitor) : List Message :=
  if m.errors = [] then [.rcl01 m.length, .rcc01 m.uri (some ((now : Int) - m.start))]
  else .err01 :: m.errors.map (fun e => .err02 e.message) ++ [.cne01]

/-- What `onSocketConnect` writes. -/
def connectMessages (addr : Text) (port : Nat) (m : Monitor) : List Message :=
  [match m.proxy with
    | some uri => .osc01 uri
    | none => .osc02 addr port] ++
    (if m.secured then [.osc03] else []) ++
    (if m.sendedHead = [] then [] else (m.sendedHead.splitOn '\n').map headerMessage)

/-- The chunk completes the head. -/
def completes (m : Monitor) (data : Bytes) : Bool :=
  !(startsTls data || m.receivedHeadDone) &&
    (indexOf? ServerConnection.crlfcrlfText (m.receivedHead ++ Utf8.decode data)).isSome

/-- What `onSocketData` writes. -/
def dataMessages (m : Monitor) (data : Bytes) : List Message :=
  if m.completes data then
    ((beforeEmptyLine (m.receivedHead ++ Utf8.decode data)).splitOn '\n').map headerMessage
  else []

/-- What `onRequest` writes. -/
def requestMessages (m : Monitor) : List Message :=
  [match m.proxy with
    | some proxyUri => .orq01 m.uri proxyUri
    | none => .orq02 m.uri, .orq03]

/-- The messages the listener of an event writes. -/
def written (now : Nat) (m : Monitor) : Event → List Message
  | .streamError e | .requestError e =>
      errorMessages m e ++ finishMessages now (m.handleError e)
  | .request => requestMessages m
  | .socket _ _ => []
  | .connect addr port => connectMessages addr port m
  | .secureConnect => [.ots01 (some ((now : Int) - m.start))]
  | .data data => dataMessages m data
  | .«end» => [.ose01]
  | .socketError e => errorMessages m e
  | .lookup e => e.elim [] (errorMessages m)
  | .timeout => [.ost01 (some ((now : Int) - m.start))]
  | .close => finishMessages now m

theorem appends_noteError (message : Text) (m : Monitor) :
    Appends m (m.noteError message) (noted message).toList := by
  unfold noteError noted
  split
  · exact ⟨_, rfl, rfl⟩
  · split
    · exact ⟨_, rfl, rfl⟩
    · split
      · exact ⟨_, rfl, rfl⟩
      · exact Appends.refl m

theorem appends_handleError (m : Monitor) (e : JudgeError) :
    Appends m (m.handleError e) (errorMessages m e) := by
  unfold handleError errorMessages
  split
  · exact Appends.refl m
  · exact appends_noteError e.message m

theorem appends_finished (now : Nat) (m : Monitor) :
    Appends m (m.finished now) (finishMessages now m) := by
  unfold finished finishMessages lastError
  by_cases herrors : m.errors = []
  · simp only [herrors, stop, List.getLast?_nil, List.isEmpty_nil, Option.isSome_none,
      Option.isNone_none, if_true]
    exact ⟨_, List.append_assoc _ _ _, rfl⟩
  · obtain ⟨e, he⟩ := Option.ne_none_iff_exists'.mp (mt List.getLast?_eq_none_iff.mp herrors)
    have hempty : m.errors.isEmpty = false := by simpa using herrors
    simp only [herrors, stop, he, hempty, Option.isSome_some, Option.isNone_some, if_true,
      if_false, Bool.false_eq_true]
    have hfold := appends_foldl '>' (fun e : JudgeError => Message.err02 e.message) m.errors
      (addClientLog (m.stop now) .err01)
    exact ((appends_addLog '>' (m.stop now) .err01).trans hfold).trans (appends_addLog '*' _ .cne01)

theorem appends_onRequest (m : Monitor) : Appends m m.onRequest (requestMessages m) := by
  unfold onRequest requestMessages
  cases m.proxy with
  | some uri => exact (appends_addLog '*' m _).trans (appends_addLog '*' _ .orq03)
  | none => exact (appends_addLog '*' m _).trans (appends_addLog '*' _ .orq03)

theorem appends_onSocket (tls : Bool) (pendingData : Text) (m : Monitor) :
    Appends m (m.onSocket tls pendingData) [] := by
  unfold onSocket
  split <;> split <;> exact Appends.refl m

theorem appends_onSocketConnect (addr : Text) (port : Nat) (m : Monitor) :
    Appends m (m.onSocketConnect addr port) (connectMessages addr port m) := by
  unfold onSocketConnect connectMessages addClientLog
  simp only [foldl_addLog]
  cases m.proxy <;> cases m.secured <;> by_cases hsent : m.sendedHead = [] <;>
    simp [Appends, addLog, hsent, entries_message]

theorem appends_onHead (head : Text) (m : Monitor) :
    Appends m (m.onHead head) ((head.splitOn '\n').map headerMessage) := by
  have hfold := appends_foldl '<' headerMessage (head.splitOn '\n')
    { m with receivedHead := head, receivedHeadDone := true }
  unfold onHead
  dsimp only
  split
  · exact hfold
  · exact hfold

theorem appends_onSocketData (m : Monitor) (data : Bytes) :
    Appends m (m.onSocketData data) (dataMessages m data) := by
  cases htls : startsTls data || m.receivedHeadDone with
  | true => simp [onSocketData, dataMessages, completes, htls, Appends]
  | false =>
      cases hhead : indexOf? ServerConnection.crlfcrlfText
          (m.receivedHead ++ Utf8.decode data) with
      | none => simp [onSocketData, dataMessages, completes, htls, hhead, Appends]
      | some i =>
          have honHead := appends_onHead (beforeEmptyLine (m.receivedHead ++ Utf8.decode data))
            { m with length := m.length + data.length }
          simpa [onSocketData, dataMessages, completes, htls, hhead, Appends] using honHead

/-- **What a listener writes.** -/
theorem on_appends (now : Nat) (m : Monitor) (e : Event) :
    Appends m (m.on now e) (written now m e) := by
  cases e with
  | streamError e => exact (appends_handleError m e).trans (appends_finished now _)
  | requestError e => exact (appends_handleError m e).trans (appends_finished now _)
  | request => exact appends_onRequest m
  | socket tls pendingData => exact appends_onSocket tls pendingData m
  | connect addr port => exact appends_onSocketConnect addr port m
  | secureConnect => exact ⟨_, rfl, rfl⟩
  | data data => exact appends_onSocketData m data
  | «end» => exact appends_addLog '>' m .ose01
  | socketError e => exact appends_handleError m e
  | lookup e =>
      cases e with
      | none => exact Appends.refl m
      | some e => exact appends_handleError m e
  | timeout => exact ⟨_, rfl, rfl⟩
  | close => exact appends_finished now m

/-! ## Closing entries -/

/-- The closing entries of the log. -/
def closings (m : Monitor) : Nat := m.logArr.countP (·.message.closes)

theorem Appends.closings {m m' : Monitor} {messages : List Message}
    (h : Appends m m' messages) :
    m'.closings = m.closings + messages.countP Message.closes := by
  obtain ⟨added, hlog, rfl⟩ := h
  rw [Monitor.closings, hlog, List.countP_append, List.countP_map]
  rfl

theorem closes_headerMessage (xs : List Text) :
    (xs.map headerMessage).countP Message.closes = 0 := by
  rw [List.countP_map, List.countP_eq_zero]
  intro x _
  have hheader : (headerMessage x).closes = false := rfl
  rw [Function.comp_apply, hheader]
  exact Bool.false_ne_true

theorem closes_noted (message : Text) :
    (noted message).toList.countP Message.closes = 0 := by
  unfold noted
  split
  · simp [Message.closes]
  · split
    · simp [Message.closes]
    · split <;> simp [Message.closes]

theorem closes_errorMessages (m : Monitor) (e : JudgeError) :
    (errorMessages m e).countP Message.closes = 0 := by
  unfold errorMessages
  split
  · simp
  · exact closes_noted e.message

theorem closes_requestMessages (m : Monitor) :
    (requestMessages m).countP Message.closes = 0 := by
  unfold requestMessages
  cases m.proxy <;> simp [Message.closes]

theorem closes_connectMessages (addr : Text) (port : Nat) (m : Monitor) :
    (connectMessages addr port m).countP Message.closes = 0 := by
  have hsent := closes_headerMessage (m.sendedHead.splitOn '\n')
  unfold connectMessages
  rw [List.countP_append, List.countP_append]
  cases m.proxy <;> cases m.secured <;> by_cases hempty : m.sendedHead = [] <;>
    simp [hempty, hsent, Message.closes]

theorem closes_dataMessages (m : Monitor) (data : Bytes) :
    (dataMessages m data).countP Message.closes = 0 := by
  unfold dataMessages
  split
  · exact closes_headerMessage _
  · simp

/-- `finished` writes one closing entry, whatever the errors are. -/
theorem closes_finishMessages (now : Nat) (m : Monitor) :
    (finishMessages now m).countP Message.closes = 1 := by
  have herrors : (m.errors.map (fun e => Message.err02 e.message)).countP Message.closes = 0 := by
    rw [List.countP_map, List.countP_eq_zero]
    intro e _
    simp [Message.closes]
  unfold finishMessages
  split
  · rfl
  · rw [List.cons_append, List.countP_cons, List.countP_append, herrors]
    rfl

theorem closes_written (now : Nat) (m : Monitor) (e : Event) :
    (written now m e).countP Message.closes = if e.finishes then 1 else 0 := by
  cases e with
  | streamError e => simp [written, closes_errorMessages, closes_finishMessages, Event.finishes]
  | requestError e => simp [written, closes_errorMessages, closes_finishMessages, Event.finishes]
  | request => exact closes_requestMessages m
  | socket tls pendingData => rfl
  | connect addr port => exact closes_connectMessages addr port m
  | secureConnect => rfl
  | data data => exact closes_dataMessages m data
  | «end» => rfl
  | socketError e => exact closes_errorMessages m e
  | lookup e =>
      cases e with
      | none => rfl
      | some e => exact closes_errorMessages m e
  | timeout => rfl
  | close => exact closes_finishMessages now m

/-- Every finishing event makes a closing entry, and no other does. -/
theorem closings_on (now : Nat) (m : Monitor) (e : Event) :
    (m.on now e).closings = m.closings + if e.finishes then 1 else 0 := by
  rw [(on_appends now m e).closings, closes_written]

/-! ## 'finished' and the clock -/

/-- Times and emissions, which `addLog` leaves alone. -/
def outcome (m : Monitor) : Nat × Option Nat × Option Int × List (Option JudgeError) :=
  (m.start, m.stopped, m.duration, m.emitted)

theorem outcome_noteError (message : Text) (m : Monitor) :
    (m.noteError message).outcome = m.outcome := by
  unfold noteError
  split
  · rfl
  · split
    · rfl
    · split <;> rfl

theorem outcome_handleError (m : Monitor) (e : JudgeError) :
    (m.handleError e).outcome = m.outcome := by
  unfold handleError
  split
  · rfl
  · exact outcome_noteError e.message m

theorem outcome_finished (now : Nat) (m : Monitor) :
    (m.finished now).outcome =
      (m.start, some now, some ((now : Int) - m.start), m.emitted ++ [m.lastError]) := by
  unfold finished addClientLog lastError
  simp only [foldl_addLog]
  by_cases herrors : m.errors = []
  · simp [outcome, stop, addLog, herrors]
  · obtain ⟨e, he⟩ := Option.ne_none_iff_exists'.mp (mt List.getLast?_eq_none_iff.mp herrors)
    simp [outcome, stop, addLog, herrors, he]

theorem outcome_onSocket (tls : Bool) (pendingData : Text) (m : Monitor) :
    (m.onSocket tls pendingData).outcome = m.outcome := by
  unfold onSocket
  split <;> split <;> rfl

theorem outcome_onSocketConnect (addr : Text) (port : Nat) (m : Monitor) :
    (m.onSocketConnect addr port).outcome = m.outcome := by
  unfold onSocketConnect addClientLog
  simp only [foldl_addLog]
  cases m.proxy <;> cases m.secured <;> by_cases hsent : m.sendedHead = [] <;>
    simp [outcome, addLog, hsent]

theorem outcome_onSocketData (m : Monitor) (data : Bytes) :
    (m.onSocketData data).outcome = m.outcome := by
  unfold onSocketData onHead addServerLog
  simp only [foldl_addLog]
  split
  · rfl
  · split
    · split <;> rfl
    · rfl

/-- The listeners that stop the clock. -/
def stops : Event → Bool
  | .streamError _ | .requestError _ | .secureConnect | .timeout | .close => true
  | _ => false

theorem outcome_on (now : Nat) (m : Monitor) {e : Event} (h : stops e = false) :
    (m.on now e).outcome = m.outcome := by
  cases e with
  | streamError e => cases h
  | requestError e => cases h
  | request =>
      unfold on onRequest
      cases m.proxy <;> rfl
  | socket tls pendingData => exact outcome_onSocket tls pendingData m
  | connect addr port => exact outcome_onSocketConnect addr port m
  | secureConnect => cases h
  | data data => exact outcome_onSocketData m data
  | «end» => rfl
  | socketError e => exact outcome_handleError m e
  | lookup e =>
      cases e with
      | none => rfl
      | some e => exact outcome_handleError m e
  | timeout => cases h
  | close => cases h

/-- 'finished' is emitted at every finishing event, and at no other. -/
theorem emitted_on (now : Nat) (m : Monitor) (e : Event) :
    (m.on now e).emitted.length = m.emitted.length + if e.finishes then 1 else 0 := by
  have hemitted (m' : Monitor) : m'.emitted = m'.outcome.2.2.2 := rfl
  cases e with
  | streamError e =>
      have herror := congrArg (·.2.2.2) (outcome_handleError m e)
      simp only [outcome] at herror
      rw [hemitted, on, onError, outcome_finished, herror]
      simp [Event.finishes]
  | requestError e =>
      have herror := congrArg (·.2.2.2) (outcome_handleError m e)
      simp only [outcome] at herror
      rw [hemitted, on, onError, outcome_finished, herror]
      simp [Event.finishes]
  | close =>
      rw [hemitted, on, onSocketClose, outcome_finished]
      simp [Event.finishes]
  | secureConnect => rfl
  | timeout => rfl
  | request => rw [hemitted, outcome_on now m rfl]; rfl
  | socket tls pendingData => rw [hemitted, outcome_on now m rfl]; rfl
  | connect addr port => rw [hemitted, outcome_on now m rfl]; rfl
  | data data => rw [hemitted, outcome_on now m rfl]; rfl
  | «end» => rw [hemitted, outcome_on now m rfl]; rfl
  | socketError e => rw [hemitted, outcome_on now m rfl]; rfl
  | lookup e => rw [hemitted, outcome_on now m rfl]; rfl

/-! ## Silent events -/

/-- The listener of the event writes nothing: a socket is there, an error
of the socket or of the lookup is known or has no entry of its own, or a
chunk does not end the head. -/
def silent (m : Monitor) : Event → Bool
  | .socket _ _ => true
  | .data data => !m.completes data
  | .socketError e => m.knows e.message || (noted e.message).isNone
  | .lookup e => e.all (fun e => m.knows e.message || (noted e.message).isNone)
  | _ => false

theorem errorMessages_eq_nil_iff (m : Monitor) (e : JudgeError) :
    errorMessages m e = [] ↔ (m.knows e.message || (noted e.message).isNone) = true := by
  unfold errorMessages
  cases m.knows e.message with
  | true => simp
  | false => cases noted e.message <;> simp

theorem silent_iff (now : Nat) (m : Monitor) (e : Event) :
    m.silent e = true ↔ written now m e = [] := by
  have hfinish (m : Monitor) : finishMessages now m ≠ [] := by
    unfold finishMessages
    split <;> simp
  cases e with
  | streamError e => simp [silent, written, hfinish]
  | requestError e => simp [silent, written, hfinish]
  | request => simp [silent, written, requestMessages]
  | socket tls pendingData => simp [silent, written]
  | connect addr port => simp [silent, written, connectMessages]
  | secureConnect => simp [silent, written]
  | data data =>
      cases hcompletes : m.completes data with
      | true => simp [silent, written, dataMessages, hcompletes]
      | false => simp [silent, written, dataMessages, hcompletes]
  | «end» => simp [silent, written]
  | socketError e => exact (errorMessages_eq_nil_iff m e).symm
  | lookup e =>
      cases e with
      | none => simp [silent, written]
      | some e => exact (errorMessages_eq_nil_iff m e).symm
  | timeout => simp [silent, written]
  | close => simp [silent, written, hfinish]

theorem stops_of_silent {m : Monitor} {e : Event} (h : m.silent e = true) : stops e = false := by
  cases e <;> first | rfl | cases h

/-- All events of the list are silent where they come. -/
def Quiet : Monitor → List (Nat × Event) → Prop
  | _, [] => True
  | m, (now, e) :: events => m.silent e = true ∧ Quiet (m.on now e) events

/-! ## Runs -/

theorem run_append (m : Monitor) (pre post : List (Nat × Event)) :
    m.run (pre ++ post) = (m.run pre).run post := List.foldl_append

/-- A run appends to the log. -/
theorem run_log (m : Monitor) (events : List (Nat × Event)) :
    m.logArr <+: (m.run events).logArr := by
  induction events generalizing m with
  | nil => exact List.prefix_rfl
  | cons p events ih =>
      obtain ⟨added, hlog, -⟩ := on_appends p.1 m p.2
      exact (hlog ▸ List.prefix_append _ _ : m.logArr <+: (m.on p.1 p.2).logArr).trans (ih _)

theorem closings_run (m : Monitor) (events : List (Nat × Event)) :
    (m.run events).closings = m.closings + events.countP (·.2.finishes) := by
  induction events generalizing m with
  | nil => rfl
  | cons p events ih =>
      have hstep := closings_on p.1 m p.2
      have hrest := ih (m.on p.1 p.2)
      rw [List.countP_cons]
      change ((m.on p.1 p.2).run events).closings = _
      omega

theorem emitted_run (m : Monitor) (events : List (Nat × Event)) :
    (m.run events).emitted.length = m.emitted.length + events.countP (·.2.finishes) := by
  induction events generalizing m with
  | nil => rfl
  | cons p events ih =>
      have hstep := emitted_on p.1 m p.2
      have hrest := ih (m.on p.1 p.2)
      rw [List.countP_cons]
      change ((m.on p.1 p.2).run events).emitted.length = _
      omega

theorem Quiet.of_append {m : Monitor} {pre post : List (Nat × Event)}
    (h : Quiet m (pre ++ post)) : Quiet m pre := by
  induction pre generalizing m with
  | nil => trivial
  | cons p pre ih => exact ⟨h.1, ih h.2⟩

/-- Silent events change neither the log nor the outcome. -/
theorem run_of_quiet {m : Monitor} {events : List (Nat × Event)} (h : Quiet m events) :
    (m.run events).logArr = m.logArr ∧ (m.run events).outcome = m.outcome := by
  induction events generalizing m with
  | nil => exact ⟨rfl, rfl⟩
  | cons p events ih =>
      obtain ⟨hsilent, hquiet⟩ := h
      obtain ⟨hlog, houtcome⟩ := ih hquiet
      have hon := on_appends p.1 m p.2
      rw [(silent_iff p.1 m p.2).mp hsilent] at hon
      obtain ⟨added, hadded, hnil⟩ := hon
      rw [List.map_eq_nil_iff.mp hnil, List.append_nil] at hadded
      exact ⟨hlog.trans hadded, houtcome.trans (outcome_on p.1 m (stops_of_silent hsilent))⟩

/-- Conversely, where the log stays as it is, all events were silent. -/
theorem quiet_of_log_eq {m : Monitor} {events : List (Nat × Event)}
    (h : (m.run events).logArr = m.logArr) : Quiet m events := by
  induction events generalizing m with
  | nil => trivial
  | cons p events ih =>
      obtain ⟨added, hadded, hmessages⟩ := on_appends p.1 m p.2
      have hgrows := run_log (m.on p.1 p.2) events
      change ((m.on p.1 p.2).run events).logArr = m.logArr at h
      rw [h, hadded] at hgrows
      have hnil : added = [] := by
        have hlength := hgrows.length_le
        rw [List.length_append] at hlength
        exact List.length_eq_zero_iff.mp (by omega)
      subst hnil
      rw [List.append_nil] at hadded
      exact ⟨(silent_iff p.1 m p.2).mpr hmessages.symm, ih (h.trans hadded.symm)⟩

end Monitor

/-! ## Finishing once -/

/-- What is to be expected of the events of one exchange. -/
structure FinishesOnce (m : Monitor) (events : List (Nat × Event)) : Prop where
  emitted : (m.run events).emitted.length ≤ 1
  closed : (m.run events).closings = 1
  settled : ∀ pre post, events = pre ++ post → (m.run pre).emitted ≠ [] →
    (m.run events).logArr = (m.run pre).logArr ∧
      (m.run events).stopped = (m.run pre).stopped ∧
      (m.run events).duration = (m.run pre).duration

/-- The condition: one event finishes, and all behind it are silent. -/
def EndsOnce (m : Monitor) (events : List (Nat × Event)) : Prop :=
  ∃ pre p post, events = pre ++ p :: post ∧ p.2.finishes = true ∧
    (∀ q ∈ pre, q.2.finishes = false) ∧ Monitor.Quiet (m.run (pre ++ [p])) post

theorem countP_of_not_finishes {events : List (Nat × Event)}
    (h : ∀ q ∈ events, q.2.finishes = false) : events.countP (·.2.finishes) = 0 := by
  rw [List.countP_eq_zero]
  intro q hq
  simp [h q hq]

theorem finishesOnce_of_endsOnce {m : Monitor} (hemitted : m.emitted = [])
    (hclosings : m.closings = 0) {events : List (Nat × Event)} (h : EndsOnce m events) :
    FinishesOnce m events := by
  obtain ⟨pre, p, post, rfl, hp, hpre, hquiet⟩ := h
  have hsplit : pre ++ p :: post = (pre ++ [p]) ++ post := by simp
  have hcount := countP_of_not_finishes hpre
  have hrun := Monitor.run_of_quiet hquiet
  rw [← Monitor.run_append, ← hsplit] at hrun
  have hone : (pre ++ [p]).countP (·.2.finishes) = 1 := by
    rw [List.countP_append, hcount]
    simp [hp]
  refine ⟨?_, ?_, ?_⟩
  · have hend : (m.run (pre ++ p :: post)).emitted = (m.run (pre ++ [p])).emitted :=
      congrArg (·.2.2.2) hrun.2
    rw [hend, Monitor.emitted_run, hemitted, hone]
    simp
  · have hend : (m.run (pre ++ p :: post)).closings = (m.run (pre ++ [p])).closings := by
      rw [Monitor.closings, hrun.1, Monitor.closings]
    rw [hend, Monitor.closings_run, hclosings, hone]
  · intro pre' post' hevents hfinished
    -- up to the finishing event nothing is emitted, so `pre'` reaches it
    obtain ⟨more, rfl, rfl⟩ : ∃ more, pre' = (pre ++ [p]) ++ more ∧ post = more ++ post' := by
      rw [hsplit, List.append_eq_append_iff] at hevents
      rcases hevents with hreaches | ⟨rest, hfront, hpost'⟩
      · exact hreaches
      · rcases List.eq_nil_or_concat rest with rfl | ⟨rest, x, rfl⟩
        · exact ⟨[], by simpa using hfront.symm, by simpa using hpost'.symm⟩
        · have hshort : pre = pre' ++ rest := by
            rw [List.concat_eq_append, ← List.append_assoc] at hfront
            exact (List.append_inj' hfront rfl).1
          have hnone : pre'.countP (·.2.finishes) = 0 :=
            countP_of_not_finishes fun q hq => hpre q (hshort ▸ List.mem_append_left _ hq)
          have hlength := Monitor.emitted_run m pre'
          rw [hemitted, hnone] at hlength
          exact absurd (List.length_eq_zero_iff.mp hlength) hfinished
    have hmore := Monitor.run_of_quiet hquiet.of_append
    rw [← Monitor.run_append] at hmore
    refine ⟨hrun.1.trans hmore.1.symm, ?_, ?_⟩
    · exact congrArg (·.2.1) (hrun.2.trans hmore.2.symm)
    · exact congrArg (·.2.2.1) (hrun.2.trans hmore.2.symm)

theorem endsOnce_of_finishesOnce {m : Monitor} (hclosings : m.closings = 0)
    {events : List (Nat × Event)} (h : FinishesOnce m events) : EndsOnce m events := by
  have hone := h.closed
  rw [Monitor.closings_run, hclosings, Nat.zero_add] at hone
  -- the first event that finishes
  obtain ⟨p, hfind⟩ : ∃ p, events.find? (·.2.finishes) = some p := by
    rw [← Option.isSome_iff_exists, List.find?_isSome]
    obtain ⟨q, hq, hfinishes⟩ := List.countP_pos_iff.mp (hone ▸ Nat.one_pos)
    exact ⟨q, hq, hfinishes⟩
  obtain ⟨hp, pre, post, rfl, hpre⟩ := List.find?_eq_some_iff_append.mp hfind
  refine ⟨pre, p, post, rfl, hp, fun q hq => by simpa using hpre q hq, ?_⟩
  have hemitted : (m.run (pre ++ [p])).emitted ≠ [] := by
    intro hnil
    have hlength := Monitor.emitted_run m (pre ++ [p])
    rw [hnil, List.countP_append, List.countP_singleton, hp] at hlength
    simp at hlength
  have hsplit : pre ++ p :: post = (pre ++ [p]) ++ post := by simp
  have hsettled := (h.settled (pre ++ [p]) post hsplit hemitted).1
  rw [hsplit, Monitor.run_append] at hsettled
  exact Monitor.quiet_of_log_eq hsettled

/-- **A monitor finishes once exactly if** one event finishes and all
behind it are silent. -/
theorem finishesOnce_iff (uri : Text) (proxy : Option Text) (start : Nat)
    (events : List (Nat × Event)) :
    FinishesOnce (newMonitor uri proxy start) events ↔
      EndsOnce (newMonitor uri proxy start) events :=
  ⟨endsOnce_of_finishesOnce rfl, finishesOnce_of_endsOnce rfl rfl⟩

def refusedError : JudgeError where
  code := "ECONNREFUSED".toList
  message := "connect ECONNREFUSED 127.0.0.1:12345".toList

/-- The connection is refused: the request tells, and then the socket
closes. -/
theorem not_finishesOnce_refused :
    ¬ FinishesOnce (newMonitor [] none 0) [(1, .requestError refusedError), (2, .close)] := by
  intro h
  have hclosed := h.closed
  rw [Monitor.closings_run] at hclosed
  exact absurd hclosed (by decide)

/-! ## The monitor of `Requests` -/

namespace Monitor

/-- What the rest of the judge reads of a monitor. -/
def abs (awaited : Bool) (m : Monitor) : Requests.Monitor :=
  { start := m.start, stopped := m.stopped, errors := m.errors, awaited := awaited }

end Monitor

/-- The events `Requests.Monitor` listens to. -/
def Event.abs : Event → Option Requests.MonitorEvent
  | .streamError e | .requestError e => some (.error e)
  | .socketError e => some (.socketError e)
  | .lookup e => some (.lookup e)
  | .connect _ _ => some .connect
  | .secureConnect => some .secureConnect
  | .timeout => some .timeout
  | .close => some .close
  | .request | .socket _ _ | .data _ | .«end» => none

namespace Monitor

theorem abs_noteError (awaited : Bool) (message : Text) (m : Monitor) :
    (m.noteError message).abs awaited = m.abs awaited := by
  unfold noteError
  split
  · rfl
  · split
    · rfl
    · split <;> rfl

theorem abs_handleError (awaited : Bool) (m : Monitor) (e : JudgeError) :
    (m.handleError e).abs awaited = (m.abs awaited).handleError e := by
  have hnote := abs_noteError awaited e.message m
  simp only [abs, Requests.Monitor.mk.injEq] at hnote
  obtain ⟨hstart, hstopped, herrors, -⟩ := hnote
  unfold handleError Requests.Monitor.handleError knows
  cases hknows : m.errors.any (fun e' => e'.message == e.message) with
  | true => simp only [abs, hknows, if_true]
  | false => simp only [abs, hknows, Bool.false_eq_true, if_false, hstart, hstopped, herrors]

theorem abs_finished (awaited : Bool) (now : Nat) (m : Monitor) :
    (m.finished now).abs awaited = (m.abs awaited).stop now := by
  unfold finished addClientLog lastError
  simp only [foldl_addLog]
  by_cases herrors : m.errors = []
  · simp [abs, stop, addLog, herrors, Requests.Monitor.stop]
  · obtain ⟨e, he⟩ := Option.ne_none_iff_exists'.mp (mt List.getLast?_eq_none_iff.mp herrors)
    simp [abs, stop, addLog, herrors, he, Requests.Monitor.stop]

/-- **Refinement**: the listeners act on the errors and the end as those of
`Requests.Monitor` do. -/
theorem on_abs (awaited : Bool) (now : Nat) (m : Monitor) (e : Event) :
    (m.on now e).abs awaited =
      e.abs.elim (m.abs awaited) (fun e => (m.abs awaited).on now e) := by
  cases e with
  | streamError e =>
      exact (abs_finished awaited now (m.handleError e)).trans
        (congrArg (Requests.Monitor.stop now) (abs_handleError awaited m e))
  | requestError e =>
      exact (abs_finished awaited now (m.handleError e)).trans
        (congrArg (Requests.Monitor.stop now) (abs_handleError awaited m e))
  | request =>
      unfold on onRequest
      cases m.proxy <;> rfl
  | socket tls pendingData =>
      simp only [on, onSocket, Event.abs, Option.elim_none]
      split <;> split <;> rfl
  | connect addr port =>
      simp only [on, onSocketConnect, addClientLog, foldl_addLog, Event.abs, Option.elim_some,
        Requests.Monitor.on]
      cases m.proxy <;> cases m.secured <;> by_cases hsent : m.sendedHead = [] <;>
        simp [abs, addLog, hsent]
  | secureConnect => rfl
  | data data =>
      simp only [on, onSocketData, onHead, addServerLog, foldl_addLog, Event.abs,
        Option.elim_none]
      split
      · rfl
      · split
        · split <;> rfl
        · rfl
  | «end» => rfl
  | socketError e => exact abs_handleError awaited m e
  | lookup e =>
      cases e with
      | none => rfl
      | some e => exact abs_handleError awaited m e
  | timeout => rfl
  | close => exact abs_finished awaited now m

end Monitor

end RequestResponseMonitor

end ProxyBroker.Judge
