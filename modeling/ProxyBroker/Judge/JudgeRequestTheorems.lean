/-
ProxyBroker.Judge.JudgeRequestTheorems — events that reach a cleared
request.

`clear` takes the request and the socket away and leaves every listener
where it is: what it gives to `removeListener` was bound anew. So the
methods still run, and whether they find a request or a socket depends on
what has come since the clear.

`quiet_iff_harmless`: in a run no method reads a property of null exactly
if every event that comes finds what its method needs; `Harmless` says
this of the events before it. `Tracks` is the invariant: what these
events have left of the request.
-/
import ProxyBroker.Judge.JudgeRequest

namespace ProxyBroker.Judge

open Lib Server

namespace JudgeRequest

/-! ## Listeners -/

/-- Who listens to what. -/
def methodOf : Emitter → EventName → Option Method
  | .stream, .request => some .onRequest
  | .request _, .socket => some .onSocket
  | .request _, .error => some .onRequestError
  | .socket _, .error => some .onSocketError
  | .socket _, .timeout => some .onSocketTimeout
  | .socket _, .data => some .onSocketData
  | _, _ => none

/-- The listeners of a request. -/
structure Attached (l : Listeners Emitter EventName Method) : Prop where
  fresh : l.Fresh
  fits : ∀ x ∈ l.list, methodOf x.emitter x.event = some x.method

theorem Attached.onBound {l : Listeners Emitter EventName Method} (h : Attached l)
    {emitter : Emitter} {event : EventName} {method : Method}
    (hfits : methodOf emitter event = some method) :
    Attached (l.onBound emitter event method) := by
  refine ⟨h.fresh.onBound _ _ _, ?_⟩
  intro x hx
  rcases List.mem_append.mp hx with hx | hx
  · exact h.fits x hx
  · rw [List.mem_singleton.mp hx]
    exact hfits

theorem Attached.removeBound {l : Listeners Emitter EventName Method} (h : Attached l)
    (emitter : Emitter) (event : EventName) : Attached (l.removeBound emitter event) := by
  refine ⟨h.fresh.removeBound _ _, ?_⟩
  rw [h.fresh.removeBound_list]
  exact h.fits

/-- Some request, some socket is listened to. -/
def hasRequest (r : JudgeRequest) : Prop := ∃ x ∈ r.listeners.list, x.emitter ≠ .stream

def hasSocket (r : JudgeRequest) : Prop := ∃ x ∈ r.listeners.list, ∃ s, x.emitter = .socket s

/-- All methods an event runs are the same one. -/
theorem Attached.heard {r : JudgeRequest} (h : Attached r.listeners) {emitter : Emitter}
    {e : Event} {m : Method} (hm : m ∈ r.heard emitter e) : methodOf emitter e.name = some m := by
  simp only [JudgeRequest.heard, Listeners.methods, List.mem_map, List.mem_filter,
    Bool.and_eq_true, decide_eq_true_eq] at hm
  obtain ⟨x, ⟨hx, rfl, hevent⟩, rfl⟩ := hm
  rw [← hevent]
  exact h.fits x hx

theorem exists_of_heard {r : JudgeRequest} {emitter : Emitter} {e : Event} {m : Method}
    (hm : m ∈ r.heard emitter e) : ∃ x ∈ r.listeners.list, x.emitter = emitter := by
  simp only [JudgeRequest.heard, Listeners.methods, List.mem_map, List.mem_filter,
    Bool.and_eq_true, decide_eq_true_eq] at hm
  obtain ⟨x, ⟨hx, hemitter, -⟩, -⟩ := hm
  exact ⟨x, hx, hemitter⟩

/-! ## What `clear` leaves -/

/-- **`clear` detaches nothing.** -/
theorem clear_listeners {r : JudgeRequest} (h : Attached r.listeners) :
    r.clear.listeners.list = r.listeners.list ∧ Attached r.clear.listeners := by
  have hrequest : (clearRequest { r with active := false }).listeners.list = r.listeners.list ∧
      Attached (clearRequest { r with active := false }).listeners := by
    unfold clearRequest
    split
    · refine ⟨?_, (h.removeBound _ _).removeBound _ _⟩
      show ((r.listeners.removeBound _ _).removeBound _ _).list = _
      rw [(h.fresh.removeBound _ _).removeBound_list, h.fresh.removeBound_list]
    · exact ⟨rfl, h⟩
  have hsocket : ∀ r' : JudgeRequest, Attached r'.listeners →
      (clearSocket r').listeners.list = r'.listeners.list ∧
        Attached (clearSocket r').listeners := by
    intro r' h'
    unfold clearSocket
    split
    · refine ⟨?_, ((h'.removeBound _ _).removeBound _ _).removeBound _ _⟩
      show (((r'.listeners.removeBound _ _).removeBound _ _).removeBound _ _).list = _
      rw [((h'.fresh.removeBound _ _).removeBound _ _).removeBound_list,
        (h'.fresh.removeBound _ _).removeBound_list, h'.fresh.removeBound_list]
    · exact ⟨rfl, h'⟩
  have hstream : ∀ r' : JudgeRequest, Attached r'.listeners →
      (clearStream r').listeners.list = r'.listeners.list ∧
        Attached (clearStream r').listeners := by
    intro r' h'
    unfold clearStream
    split
    · exact ⟨h'.fresh.removeBound_list _ _, h'.removeBound _ _⟩
    · exact ⟨rfl, h'⟩
  unfold clear
  split
  · exact ⟨rfl, h⟩
  · obtain ⟨hlist, hattached⟩ := hsocket _ hrequest.2
    obtain ⟨hlist', hattached'⟩ := hstream _ hattached
    exact ⟨hlist'.trans (hlist.trans hrequest.1), hattached'⟩

/-- The fields of a request the methods test. -/
structure Brief where
  active : Bool
  aborted : Bool
  judgeConnected : Bool
  request : Bool
  socket : Bool
  deriving DecidableEq, Repr

def brief (r : JudgeRequest) : Brief where
  active := r.active
  aborted := r.aborted
  judgeConnected := r.judgeConnected
  request := r.request.isSome
  socket := r.socket.isSome

theorem brief_clear (r : JudgeRequest) :
    r.clear.brief =
      if r.active then { r.brief with active := false, request := false, socket := false }
      else r.brief := by
  cases ha : r.active with
  | false => simp [clear, ha]
  | true =>
      cases hr : r.request <;> cases hs : r.socket <;> cases hst : r.stream <;>
        simp [clear, ha, brief, freeSockets, clearStream, clearSocket, clearRequest, hr, hs, hst]

theorem errors_clear (r : JudgeRequest) : r.clear.errors = r.errors := by
  cases ha : r.active with
  | false => simp [clear, ha]
  | true =>
      cases hr : r.request <;> cases hs : r.socket <;> cases hst : r.stream <;>
        simp [clear, ha, freeSockets, clearStream, clearSocket, clearRequest, hr, hs, hst]

/-! ## One method -/

/-- What holds of a request at any time: its listeners, and that an error
it has seen has aborted it. -/
structure Regular (r : JudgeRequest) : Prop where
  attached : Attached r.listeners
  aborted : ∀ error ∈ r.errors, r.aborted = true

/-- The event makes the request abort itself. -/
def Event.provokes (judgeConnected : Bool) : Event → Bool
  | .error _ => true
  | .timeout _ => !judgeConnected
  | .request _ | .socket _ | .data => false

/-- The fields behind an event. -/
def Brief.after (b : Brief) (e : Event) : Brief :=
  { b with
    aborted := b.aborted || e.provokes b.judgeConnected
    request := b.request || e.name = .request
    socket := b.socket || e.name = .socket }

/-- What a method needs: a socket for data, a request to abort. -/
def Brief.suffices (b : Brief) : Event → Bool
  | .data => b.socket
  | e => b.request || b.aborted || !e.provokes b.judgeConnected

theorem Regular.handleError {r : JudgeRequest} (h : r.Regular) (error : Nat) :
    if r.aborted || r.request.isSome then
      ∃ r', r.handleError error = .ok r' ∧ r'.Regular ∧ r'.listeners = r.listeners ∧
        r'.brief = { r.brief with aborted := true }
    else r.handleError error = .error .typeError := by
  by_cases hmem : error ∈ r.errors
  · have hab := h.aborted error hmem
    simp [JudgeRequest.handleError, hmem, hab, brief, h]
  · cases hab : r.aborted with
    | true =>
        simp only [Bool.true_or, if_true]
        refine ⟨{ r with errors := r.errors ++ [error] }, ?_, ⟨h.attached, fun _ _ => hab⟩, rfl, ?_⟩
        · simp [JudgeRequest.handleError, hmem, abort, hab]
        · simp [brief, hab]
    | false =>
        cases hreq : r.request with
        | none => simp [JudgeRequest.handleError, hmem, abort, hab, hreq, deref, bind, Except.bind]
        | some q =>
            simp only [Bool.false_or, Option.isSome_some, if_true]
            refine ⟨{ r with errors := r.errors ++ [error], aborted := true }, ?_,
              ⟨h.attached, fun _ _ => rfl⟩, rfl, ?_⟩
            · simp [JudgeRequest.handleError, hmem, abort, hab, hreq, deref, bind, Except.bind,
                pure, Except.pure]
            · simp [brief]

/-- The listeners an event adds are on the request or the socket it
brings. -/
def Grown (e : Event) (r r' : JudgeRequest) : Prop :=
  ∀ x ∈ r'.listeners.list, x ∈ r.listeners.list ∨
    (e.name = .request ∧ ∃ q, x.emitter = .request q) ∨
    (e.name = .socket ∧ ∃ s, x.emitter = .socket s)

theorem Grown.trans {e : Event} {r r' r'' : JudgeRequest} (h : Grown e r r') (h' : Grown e r' r'') :
    Grown e r r'' := by
  intro x hx
  rcases h' x hx with hx | hnew
  · exact h x hx
  · exact .inr hnew

theorem Grown.of_eq {e : Event} {r r' : JudgeRequest} (h : r'.listeners = r.listeners) :
    Grown e r r' := by
  intro x hx
  rw [h] at hx
  exact .inl hx

/-- A method has run: it had what it needs, and the fields are those
behind the event. -/
structure Ran (e : Event) (r r' : JudgeRequest) : Prop where
  regular : r'.Regular
  brief : r'.brief = r.brief.after e
  grown : Grown e r r'

theorem Regular.onRequest {r : JudgeRequest} (h : r.Regular) (q : Nat) :
    Ran (.request q) r (r.onRequest q) := by
  refine ⟨⟨?_, h.aborted⟩, ?_, ?_⟩
  · exact (h.attached.onBound rfl).onBound rfl
  · simp [JudgeRequest.onRequest, JudgeRequest.brief, Brief.after, Event.provokes, Event.name]
  · intro x hx
    simp only [JudgeRequest.onRequest, Listeners.onBound, List.mem_append, List.mem_singleton] at hx
    rcases hx with (hx | rfl) | rfl
    · exact .inl hx
    · exact .inr (.inl ⟨rfl, q, rfl⟩)
    · exact .inr (.inl ⟨rfl, q, rfl⟩)

theorem Regular.onSocket {r : JudgeRequest} (h : r.Regular) (s : Nat) :
    Ran (.socket s) r (r.onSocket s) := by
  refine ⟨⟨?_, h.aborted⟩, ?_, ?_⟩
  · exact ((h.attached.onBound rfl).onBound rfl).onBound rfl
  · simp [JudgeRequest.onSocket, JudgeRequest.brief, Brief.after, Event.provokes, Event.name]
  · intro x hx
    simp only [JudgeRequest.onSocket, Listeners.onBound, List.mem_append, List.mem_singleton] at hx
    rcases hx with ((hx | rfl) | rfl) | rfl
    · exact .inl hx
    · exact .inr (.inr ⟨rfl, s, rfl⟩)
    · exact .inr (.inr ⟨rfl, s, rfl⟩)
    · exact .inr (.inr ⟨rfl, s, rfl⟩)

theorem Regular.error {r : JudgeRequest} (h : r.Regular) (error : Nat) :
    if r.brief.suffices (.error error) then
      ∃ r', r.handleError error = .ok r' ∧ Ran (.error error) r r'
    else r.handleError error = .error .typeError := by
  have hspec := h.handleError error
  have hneeds : r.brief.suffices (.error error) = (r.aborted || r.request.isSome) := by
    simp [Brief.suffices, JudgeRequest.brief, Event.provokes, Bool.or_comm]
  rw [hneeds]
  split
  · rename_i hok
    rw [if_pos hok] at hspec
    obtain ⟨r', hr', hregular, hlisteners, hbrief⟩ := hspec
    refine ⟨r', hr', hregular, ?_, Grown.of_eq hlisteners⟩
    simp [hbrief, Brief.after, Event.provokes, Event.name]
  · rename_i hno
    rw [if_neg hno] at hspec
    exact hspec

/-- A timeout that counts is an error. -/
theorem Ran.timeout {r r' : JudgeRequest} {error : Nat} (h : Ran (.error error) r r')
    (hjudge : r.judgeConnected = false) : Ran (.timeout error) r r' := by
  refine ⟨h.regular, ?_, ?_⟩
  · rw [h.brief]
    simp [JudgeRequest.brief, Brief.after, Event.provokes, Event.name, hjudge]
  · intro x hx
    rcases h.grown x hx with hx | ⟨hname, -⟩ | ⟨hname, -⟩
    · exact .inl hx
    · cases hname
    · cases hname

theorem Regular.timeout {r : JudgeRequest} (h : r.Regular) (error : Nat) :
    if r.brief.suffices (.timeout error) then
      ∃ r', r.onSocketTimeout error = .ok r' ∧ Ran (.timeout error) r r'
    else r.onSocketTimeout error = .error .typeError := by
  cases hjudge : r.judgeConnected with
  | true =>
      have hyes : r.brief.suffices (.timeout error) = true := by
        simp [Brief.suffices, JudgeRequest.brief, Event.provokes, hjudge]
      rw [if_pos hyes]
      refine ⟨r, by simp [JudgeRequest.onSocketTimeout, hjudge], h, ?_, Grown.of_eq rfl⟩
      simp [JudgeRequest.brief, Brief.after, Event.provokes, Event.name, hjudge]
  | false =>
      have hneeds : r.brief.suffices (.timeout error) = r.brief.suffices (.error error) := by
        simp [Brief.suffices, JudgeRequest.brief, Event.provokes, hjudge]
      have hcall : r.onSocketTimeout error = r.handleError error := by
        simp [JudgeRequest.onSocketTimeout, hjudge]
      have hspec := h.error error
      rw [hneeds, hcall]
      split
      · rename_i hok
        rw [if_pos hok] at hspec
        obtain ⟨r', hr', hran⟩ := hspec
        exact ⟨r', hr', hran.timeout hjudge⟩
      · rename_i hno
        rw [if_neg hno] at hspec
        exact hspec

theorem Regular.data {r : JudgeRequest} (h : r.Regular) :
    if r.brief.suffices .data then ∃ r', r.onSocketData = .ok r' ∧ Ran .data r r'
    else r.onSocketData = .error .typeError := by
  cases hs : r.socket with
  | none =>
      simp [Brief.suffices, JudgeRequest.brief, hs, JudgeRequest.onSocketData, deref, bind,
        Except.bind]
  | some s =>
      have hyes : r.brief.suffices .data = true := by simp [Brief.suffices, JudgeRequest.brief, hs]
      rw [if_pos hyes]
      refine ⟨r, by simp [JudgeRequest.onSocketData, deref, hs, bind, Except.bind, pure,
        Except.pure], h, ?_, Grown.of_eq rfl⟩
      simp [JudgeRequest.brief, Brief.after, Event.provokes, Event.name]

/-- **One method.** It runs exactly if it has what it needs. -/
theorem Regular.call {r : JudgeRequest} (h : r.Regular) {emitter : Emitter} {e : Event}
    {m : Method} (hm : methodOf emitter e.name = some m) :
    if r.brief.suffices e then ∃ r', call e r m = .ok r' ∧ Ran e r r'
    else call e r m = .error .typeError := by
  cases e with
  | request q =>
      have hyes : r.brief.suffices (.request q) = true := by simp [Brief.suffices, Event.provokes]
      rw [if_pos hyes]
      cases emitter <;> cases hm
      exact ⟨_, rfl, h.onRequest q⟩
  | socket s =>
      have hyes : r.brief.suffices (.socket s) = true := by simp [Brief.suffices, Event.provokes]
      rw [if_pos hyes]
      cases emitter <;> cases hm
      exact ⟨_, rfl, h.onSocket s⟩
  | error error =>
      cases emitter <;> cases hm <;> exact h.error error
  | timeout error =>
      cases emitter <;> cases hm
      exact h.timeout error
  | data =>
      cases emitter <;> cases hm
      exact h.data

/-! ## One event -/

theorem Brief.after_after (b : Brief) (e : Event) : (b.after e).after e = b.after e := by
  simp [Brief.after]

theorem Brief.suffices_after {b : Brief} {e : Event} (h : b.suffices e = true) :
    (b.after e).suffices e = true := by
  cases e <;> simp only [Brief.suffices, Brief.after, Event.name] at h ⊢ <;> grind

/-- The methods an event runs are one method, called as often as it
listens; the first call decides. -/
theorem Regular.hear {r : JudgeRequest} (h : r.Regular) {emitter : Emitter} {e : Event}
    (hheard : r.heard emitter e ≠ []) :
    if r.brief.suffices e then ∃ r', r.act (.emit emitter e) = .ok r' ∧ Ran e r r'
    else r.act (.emit emitter e) = .error .typeError := by
  have hfits : ∀ m ∈ r.heard emitter e, methodOf emitter e.name = some m := by
    intro m hm
    exact h.attached.heard hm
  have hagain : ∀ ms : List Method, (∀ m ∈ ms, methodOf emitter e.name = some m) →
      ∀ r₁ : JudgeRequest, Ran e r r₁ → r.brief.suffices e = true →
        ∃ r', ms.foldlM (JudgeRequest.call e) r₁ = Except.ok r' ∧ Ran e r r' := by
    intro ms
    induction ms with
    | nil => exact fun _ r₁ hr₁ _ => ⟨r₁, rfl, hr₁⟩
    | cons m ms ih =>
        intro hms r₁ hr₁ hneeds
        have hcall := hr₁.regular.call (hms m List.mem_cons_self)
        rw [hr₁.brief, if_pos (Brief.suffices_after hneeds)] at hcall
        obtain ⟨r₂, hr₂, hran⟩ := hcall
        have hran' : Ran e r r₂ :=
          ⟨hran.regular, by rw [hran.brief, hr₁.brief, Brief.after_after],
            hr₁.grown.trans hran.grown⟩
        obtain ⟨r', hr', hran''⟩ :=
          ih (fun m' hm' => hms m' (List.mem_cons_of_mem _ hm')) r₂ hran' hneeds
        exact ⟨r', by rw [List.foldlM_cons, hr₂]; exact hr', hran''⟩
  show if _ then ∃ r', (r.heard emitter e).foldlM (JudgeRequest.call e) r = Except.ok r' ∧ _
    else (r.heard emitter e).foldlM (JudgeRequest.call e) r = _
  obtain ⟨m, ms, hcons⟩ := List.exists_cons_of_ne_nil hheard
  rw [hcons] at hfits ⊢
  have hcall := h.call (hfits m List.mem_cons_self)
  by_cases hneeds : r.brief.suffices e = true
  · rw [if_pos hneeds] at hcall ⊢
    obtain ⟨r₁, hr₁, hran⟩ := hcall
    obtain ⟨r', hr', hran'⟩ :=
      hagain ms (fun m' hm' => hfits m' (List.mem_cons_of_mem _ hm')) r₁ hran hneeds
    exact ⟨r', by rw [List.foldlM_cons, hr₁]; exact hr', hran'⟩
  · rw [if_neg hneeds] at hcall ⊢
    rw [List.foldlM_cons, hcall]
    rfl

end JudgeRequest

open JudgeRequest

namespace Watched

/-! ## What has happened -/

def isRequest : Action → Bool
  | .emit _ (.request _) => true
  | _ => false

def isSocket : Action → Bool
  | .emit _ (.socket _) => true
  | _ => false

/-- What the events `p` bring was taken away by the clear, and none of
them has come since. Only the first call of `clear` takes away. -/
def lost (p : Action → Bool) : List Action → Bool
  | [] => false
  | a :: past =>
      if p a then false
      else if a = .clear ∧ .clear ∉ past then true
      else lost p past

/-- The request has aborted itself: an error has come, or a timeout
before the judge was reached. -/
def aborted : List Action → Bool
  | [] => false
  | .emit _ e :: past => aborted past || e.provokes (decide (.onJudge ∈ past))
  | _ :: past => aborted past

/-- The event finds what its method needs: data a socket, the first event
that aborts the request a request. -/
def Harmless (s : Watched) : Action → Prop
  | .emit _ .data => lost isSocket s.past = false
  | .emit _ e => e.provokes (decide (.onJudge ∈ s.past)) = true →
      aborted s.past = true ∨ lost isRequest s.past = false
  | .onJudge | .clear => True

instance (s : Watched) : DecidablePred s.Harmless := fun a =>
  match a with
  | .emit _ .data => inferInstanceAs (Decidable (_ = _))
  | .emit _ (.request _) | .emit _ (.socket _) | .emit _ (.error _) | .emit _ (.timeout _) =>
      inferInstanceAs (Decidable (_ → _ ∨ _))
  | .onJudge | .clear => inferInstanceAs (Decidable True)

/-- No listener has thrown. -/
def Quiet (s : Watched) : Prop := s.crashed = false

instance : DecidablePred Quiet := fun s => inferInstanceAs (Decidable (s.crashed = false))

/-! ## What is lost -/

theorem lost_emit (p : Action → Bool) (emitter : Emitter) (e : Event) (past : List Action) :
    lost p (.emit emitter e :: past) = (!p (.emit emitter e) && lost p past) := by
  cases hp : p (.emit emitter e) <;> simp [lost, hp]

theorem lost_onJudge {p : Action → Bool} (hp : p .onJudge = false) (past : List Action) :
    lost p (.onJudge :: past) = lost p past := by
  simp [lost, hp]

/-- Only the first call of `clear` takes away. -/
theorem lost_clear {p : Action → Bool} (hp : p .clear = false) (past : List Action) :
    lost p (.clear :: past) = (decide (.clear ∉ past) || lost p past) := by
  by_cases hmem : Action.clear ∈ past <;> simp [lost, hp, hmem]

/-! ## The invariant -/

/-- What has happened, read off the fields of the request. -/
structure Tracks (r : JudgeRequest) (past : List Action) : Prop where
  regular : r.Regular
  active : r.active = decide (.clear ∉ past)
  judgeConnected : r.judgeConnected = decide (.onJudge ∈ past)
  aborted : r.aborted = Watched.aborted past
  noRequest : lost isRequest past = true → r.request.isSome = false
  someRequest : r.hasRequest → lost isRequest past = false → r.request.isSome = true
  noSocket : lost isSocket past = true → r.socket.isSome = false
  someSocket : r.hasSocket → lost isSocket past = false → r.socket.isSome = true

theorem tracks_initial : Tracks (performRequest {}) [] := by
  refine ⟨⟨⟨?_, ?_⟩, ?_⟩, rfl, rfl, rfl, ?_, ?_, ?_, ?_⟩
  · intro x hx
    cases List.mem_singleton.mp hx
    exact Nat.one_pos
  · intro x hx
    cases List.mem_singleton.mp hx
    rfl
  · intro error herror
    cases herror
  · intro hlost
    cases hlost
  · rintro ⟨x, hx, hne⟩
    cases List.mem_singleton.mp hx
    exact absurd rfl hne
  · intro hlost
    cases hlost
  · rintro ⟨x, hx, s, hs⟩
    cases List.mem_singleton.mp hx
    cases hs

/-- A field is set exactly if it is not lost. -/
theorem isSome_iff {α : Type} {o : Option α} {isLost : Bool}
    (hno : isLost = true → o.isSome = false) (hsome : isLost = false → o.isSome = true) :
    o.isSome = true ↔ isLost = false := by
  cases isLost with
  | true => simp [hno rfl]
  | false => simp [hsome rfl]

/-- What listens to an event. -/
theorem Tracks.exists_heard {r : JudgeRequest} {past : List Action} (h : Tracks r past)
    {emitter : Emitter} {e : Event} (hheard : r.heard emitter e ≠ []) :
    ∃ m, methodOf emitter e.name = some m ∧
      ∃ x ∈ r.listeners.list, x.emitter = emitter := by
  obtain ⟨m, ms, hcons⟩ := List.exists_cons_of_ne_nil hheard
  have hmem : m ∈ r.heard emitter e := by
    rw [hcons]
    exact List.mem_cons_self
  exact ⟨m, h.regular.attached.heard hmem, exists_of_heard hmem⟩

/-- The methods have what they need exactly if the event is harmless. -/
theorem Tracks.suffices_iff {r : JudgeRequest} {past : List Action} (h : Tracks r past)
    {emitter : Emitter} {e : Event} (hheard : r.heard emitter e ≠ []) (crashed : Bool) :
    r.brief.suffices e = true ↔ Harmless ⟨r, past, crashed⟩ (.emit emitter e) := by
  obtain ⟨m, hfits, x, hx, hemitter⟩ := h.exists_heard hheard
  have hrequest : emitter ≠ .stream → (r.request.isSome = true ↔ lost isRequest past = false) := by
    intro hne
    have hhas : r.hasRequest := ⟨x, hx, by rwa [hemitter]⟩
    exact isSome_iff h.noRequest (h.someRequest hhas)
  have hprovokes : e.provokes r.judgeConnected = e.provokes (decide (.onJudge ∈ past)) := by
    rw [h.judgeConnected]
  have habort : emitter ≠ .stream →
      ((r.brief.request || r.brief.aborted || !e.provokes r.judgeConnected) = true ↔
        (e.provokes (decide (.onJudge ∈ past)) = true →
          Watched.aborted past = true ∨ lost isRequest past = false)) := by
    intro hne
    rw [← hrequest hne, ← h.aborted, hprovokes]
    simp only [JudgeRequest.brief]
    grind
  cases e with
  | request q => simp [Brief.suffices, Harmless, Event.provokes]
  | socket s => simp [Brief.suffices, Harmless, Event.provokes]
  | error error =>
      refine habort ?_
      rintro rfl
      cases hfits
  | timeout error =>
      refine habort ?_
      rintro rfl
      cases hfits
  | data =>
      cases emitter with
      | stream => cases hfits
      | request q => cases hfits
      | socket s =>
          have hhas : r.hasSocket := ⟨x, hx, s, hemitter⟩
          show r.socket.isSome = true ↔ lost isSocket past = false
          exact isSome_iff h.noSocket (h.someSocket hhas)

/-! ## One step -/

/-- An event whose methods have run. -/
theorem Tracks.emit {r r' : JudgeRequest} {past : List Action} (h : Tracks r past)
    {emitter : Emitter} {e : Event} (hheard : r.heard emitter e ≠ []) (hran : Ran e r r') :
    Tracks r' (.emit emitter e :: past) := by
  have hbrief := hran.brief
  simp only [JudgeRequest.brief, Brief.after, Brief.mk.injEq] at hbrief
  obtain ⟨hactive, haborted, hjudge, hreq, hsock⟩ := hbrief
  have hisRequest : isRequest (.emit emitter e) = decide (e.name = .request) := by
    cases e <;> rfl
  have hisSocket : isSocket (.emit emitter e) = decide (e.name = .socket) := by
    cases e <;> rfl
  obtain ⟨m, hfits, x, hx, hemitter⟩ := h.exists_heard hheard
  refine ⟨hran.regular, ?_, ?_, ?_, ?_, ?_, ?_, ?_⟩
  · rw [hactive, h.active]
    simp
  · rw [hjudge, h.judgeConnected]
    simp
  · rw [haborted, h.aborted, h.judgeConnected]
    simp [Watched.aborted]
  · intro hl
    rw [lost_emit, hisRequest, Bool.and_eq_true] at hl
    have hno := h.noRequest hl.2
    rw [hreq, hno]
    simpa using hl.1
  · intro hhas hl
    rw [lost_emit, hisRequest] at hl
    rw [hreq]
    by_cases hname : e.name = .request
    · simp [hname]
    · have hl' : lost isRequest past = false := by simpa [hname] using hl
      have hhas' : r.hasRequest := by
        obtain ⟨y, hy, hne⟩ := hhas
        rcases hran.grown y hy with hy | ⟨hname', -⟩ | ⟨hname', -⟩
        · exact ⟨y, hy, hne⟩
        · exact absurd hname' hname
        · -- a socket comes from a request
          refine ⟨x, hx, ?_⟩
          rw [hemitter]
          rintro rfl
          rw [hname'] at hfits
          cases hfits
      rw [h.someRequest hhas' hl', Bool.true_or]
  · intro hl
    rw [lost_emit, hisSocket, Bool.and_eq_true] at hl
    have hno := h.noSocket hl.2
    rw [hsock, hno]
    simpa using hl.1
  · intro hhas hl
    rw [lost_emit, hisSocket] at hl
    rw [hsock]
    by_cases hname : e.name = .socket
    · simp [hname]
    · have hl' : lost isSocket past = false := by simpa [hname] using hl
      have hhas' : r.hasSocket := by
        obtain ⟨y, hy, s, hs⟩ := hhas
        rcases hran.grown y hy with hy | ⟨-, q, hq⟩ | ⟨hname', -⟩
        · exact ⟨y, hy, s, hs⟩
        · rw [hs] at hq
          cases hq
        · exact absurd hname' hname
      rw [h.someSocket hhas' hl', Bool.true_or]

theorem Tracks.onJudge {r : JudgeRequest} {past : List Action} (h : Tracks r past) :
    Tracks { r with judgeConnected := true } (.onJudge :: past) := by
  refine ⟨⟨h.regular.attached, h.regular.aborted⟩, ?_, ?_, h.aborted, ?_, ?_, ?_, ?_⟩
  · simpa using h.active
  · simp
  · rw [lost_onJudge rfl]
    exact h.noRequest
  · rw [lost_onJudge rfl]
    exact h.someRequest
  · rw [lost_onJudge rfl]
    exact h.noSocket
  · rw [lost_onJudge rfl]
    exact h.someSocket

theorem Tracks.clear {r : JudgeRequest} {past : List Action} (h : Tracks r past) :
    Tracks r.clear (.clear :: past) := by
  obtain ⟨hlist, hattached⟩ := clear_listeners h.regular.attached
  have hbrief := brief_clear r
  cases hactive : r.active with
  | false =>
      have hclear : r.clear = r := by simp [JudgeRequest.clear, hactive]
      have hmem : Action.clear ∈ past := by
        have := h.active
        rw [hactive] at this
        simpa using this.symm
      have hlost : ∀ p : Action → Bool, p .clear = false →
          lost p (.clear :: past) = lost p past := by
        intro p hp
        simp [lost_clear hp, hmem]
      rw [hclear]
      refine ⟨h.regular, ?_, ?_, h.aborted, ?_, ?_, ?_, ?_⟩
      · simpa using hactive
      · simpa using h.judgeConnected
      · rw [hlost _ rfl]
        exact h.noRequest
      · rw [hlost _ rfl]
        exact h.someRequest
      · rw [hlost _ rfl]
        exact h.noSocket
      · rw [hlost _ rfl]
        exact h.someSocket
  | true =>
      have hmem : Action.clear ∉ past := by
        have := h.active
        rw [hactive] at this
        simpa using this.symm
      have hlost : ∀ p : Action → Bool, p .clear = false → lost p (.clear :: past) = true := by
        intro p hp
        simp [lost_clear hp, hmem]
      rw [hactive, if_pos rfl] at hbrief
      simp only [JudgeRequest.brief, Brief.mk.injEq] at hbrief
      obtain ⟨hactive', haborted, hjudge, hreq, hsock⟩ := hbrief
      refine ⟨⟨hattached, ?_⟩, ?_, ?_, ?_, fun _ => hreq, ?_, fun _ => hsock, ?_⟩
      · rw [errors_clear, haborted]
        exact h.regular.aborted
      · simpa using hactive'
      · rw [hjudge, h.judgeConnected]
        simp
      · rw [haborted, h.aborted]
        rfl
      · intro _ hl
        rw [hlost _ rfl] at hl
        cases hl
      · intro _ hl
        rw [hlost _ rfl] at hl
        cases hl

/-- **One step**: it throws exactly if the event is not harmless. -/
theorem step_spec {s s' : Watched} {a : Action} (h : Tracks s.request s.past) (hquiet : Quiet s)
    (hstep : step s a = some s') :
    if Harmless s a then Quiet s' ∧ Tracks s'.request s'.past else ¬ Quiet s' := by
  unfold step at hstep
  split at hstep
  · cases hstep
  · rename_i hreaches
    cases hstep
    cases a with
    | onJudge =>
        rw [if_pos (show Harmless s .onJudge from trivial)]
        exact ⟨hquiet, h.onJudge⟩
    | clear =>
        rw [if_pos (show Harmless s .clear from trivial)]
        exact ⟨hquiet, h.clear⟩
    | emit emitter e =>
        have hheard : s.request.heard emitter e ≠ [] := by
          intro hnil
          simp [reaches, hnil] at hreaches
        have hspec := h.regular.hear hheard
        have hiff := h.suffices_iff hheard s.crashed
        by_cases hneeds : s.request.brief.suffices e = true
        · rw [if_pos hneeds] at hspec
          obtain ⟨r', hr', hran⟩ := hspec
          rw [if_pos (hiff.mp hneeds), hr']
          exact ⟨hquiet, h.emit hheard hran⟩
        · rw [if_neg hneeds] at hspec
          rw [if_neg (fun hharmless => hneeds (hiff.mpr hharmless)), hspec]
          simp [Quiet]

/-! ## Whole runs -/

/-- **When a request survives what happens to it.** In a run from the
start no method reads a property of null exactly if every step is
harmless. -/
theorem quiet_iff_harmless {as : List Action} {t : Watched} (h : machine.run {} as = some t) :
    machine.Always Quiet {} as ↔ machine.Along Harmless {} as := by
  have hkeep : ∀ s a s', (Quiet s ∧ Tracks s.request s.past) → True → Harmless s a →
      machine.step s a = some s' → Quiet s' ∧ Tracks s'.request s'.past := by
    intro s a s' hs _ hharmless hstep
    have hspec := step_spec hs.2 hs.1 hstep
    rwa [if_pos hharmless] at hspec
  have hbreak : ∀ s a s', (Quiet s ∧ Tracks s.request s.past) → True →
      machine.step s a = some s' → Quiet s' → Harmless s a := by
    intro s a s' hs _ hstep hquiet
    have hspec := step_spec hs.2 hs.1 hstep
    by_contra hharmless
    rw [if_neg hharmless] at hspec
    exact hspec hquiet
  have hinitial : Quiet {} ∧ Tracks ({} : Watched).request ({} : Watched).past :=
    ⟨rfl, tracks_initial⟩
  have hall : machine.Along (fun _ _ => True) {} as := machine.along_true
  exact machine.always_iff_along_of_inv hkeep (fun _ hs => hs.1) hbreak hinitial hall h

/-- A request that is cleared behind its error. -/
def answeredThenCleared : List Action :=
  [.emit .stream (.request 0), .emit (.request 0) (.socket 0), .emit (.socket 0) .data, .onJudge,
    .emit (.socket 0) (.error 0), .clear, .emit (.request 0) (.error 1)]

def cleared : Watched := (machine.run {} answeredThenCleared).getD {}

theorem quiet_answeredThenCleared : machine.Always Quiet {} answeredThenCleared :=
  (quiet_iff_harmless (show machine.run {} answeredThenCleared = some cleared by decide)).mpr
    (by decide)

/-- The request is in flight when it is cleared; its socket is destroyed,
and the request emits the error of that. -/
def clearedInFlight : List Action :=
  [.emit .stream (.request 0), .emit (.request 0) (.socket 0), .clear,
    .emit (.request 0) (.error 0)]

/-- The listener of the request throws. -/
theorem not_quiet_clearedInFlight :
    (machine.run {} clearedInFlight).isSome = true ∧ ¬ machine.Always Quiet {} clearedInFlight := by
  decide

end Watched

end ProxyBroker.Judge
