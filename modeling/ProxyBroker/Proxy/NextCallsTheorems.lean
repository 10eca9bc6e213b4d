/-
ProxyBroker.Proxy.NextCallsTheorems — what becomes of the calls of `next`.

* `refines_rotator` — with all that waits, the rotator only does what its
  own steps do, a call that begins again being a `take` of its own;
* `calls_run` — no call is lost, and none is answered twice: in every run
  each call is at one place, and behind its last await its timer or an
  answer is there;
* `served_step` — what a call is resolved with matches the selector
  `parseProxyHeader` made of its own, however often it has begun again;
* `served_after_pause` — a proxy is not handed out for two seconds after
  its check has listed it, so never by the success that has woken a call.
-/
import Mathlib.Data.List.InsertIdx
import Mathlib.Data.List.Perm.Basic
import ProxyBroker.Proxy.NextCalls
import ProxyBroker.Proxy.ReusePauseTheorems

namespace ProxyBroker.Proxy.NextCalls

open Lib Server

variable {env : Env} {s s' t : Calls} {as : List Action}

/-! ## `take` -/

theorem takeCall_of_found {call : Nat} {selector : Selector} {e : Ref}
    (h : s.rotator.found selector.fields = some e) (elapsed : Nat) :
    takeCall env s call selector elapsed =
      { s with
        rotator := s.rotator.take env.options selector.fields elapsed
        settled := s.settled ++ [(call, some e)] } := by
  simp only [takeCall, h]

theorem takeCall_of_not_found {call : Nat} {selector : Selector}
    (h : s.rotator.found selector.fields = none) (elapsed : Nat) :
    ∃ rotation, takeCall env s call selector elapsed =
      { s with
        rotator := s.rotator.take env.options selector.fields elapsed
        enqueueing := s.enqueueing ++
          [⟨call, ⟨selector.fields, rotation⟩, env.shorthash selector⟩] } := by
  refine ⟨if env.options.reuse ≤ selector.rotation + 1 then 0 else selector.rotation + 1, ?_⟩
  simp only [takeCall, h]

theorem takeCall_rotator (call : Nat) (selector : Selector) (elapsed : Nat) :
    (takeCall env s call selector elapsed).rotator =
      s.rotator.take env.options selector.fields elapsed := by
  cases h : s.rotator.found selector.fields with
  | some e => rw [takeCall_of_found h]
  | none =>
      obtain ⟨rotation, heq⟩ := @takeCall_of_not_found env s call selector h elapsed
      rw [heq]

theorem asked_takeCall (call : Nat) (selector : Selector) (elapsed : Nat) :
    (takeCall env s call selector elapsed).asked = s.asked := by
  cases h : s.rotator.found selector.fields with
  | some e => rw [takeCall_of_found h]
  | none =>
      obtain ⟨rotation, heq⟩ := @takeCall_of_not_found env s call selector h elapsed
      rw [heq]

/-! ## The rotator below -/

/-- What a step is for the rotator. -/
def act (s : Calls) : Action → Option Rotator.Action
  | .rotator a => some a
  | .next select elapsed => some (.take (parseProxyHeader select) elapsed)
  | .success _ workLoad => some (.doSucceeded workLoad)
  | .retry elapsed => some (.take ((s.retries.head?.map (·.selector.fields)).getD []) elapsed)
  | .enqueued _ | .timeout _ | .shutdown => none

/-- A call begins, for the first time or again. -/
def Action.begins : Action → Bool
  | .rotator a => a.isTake
  | .next _ _ | .retry _ => true
  | _ => false

theorem step_act {a : Action} (h : (machine env).step s a = some s') :
    (Rotator.machine env.options).run s.rotator (act s a).toList = some s'.rotator := by
  cases a with
  | rotator a =>
      simp only [machine, step] at h
      split at h
      · cases h
      · obtain ⟨r, hr, rfl⟩ := Option.map_eq_some_iff.mp h
        simpa [act, Rotator.machine] using hr
  | next select elapsed =>
      cases h
      simp [act, next, takeCall_rotator, Rotator.machine, Rotator.step]
  | enqueued i =>
      obtain ⟨p, -, rfl⟩ := Option.map_eq_some_iff.mp h
      rfl
  | success reqId workLoad =>
      cases h
      simp [act, emit, Rotator.machine, Rotator.step]
  | retry elapsed =>
      simp only [machine, step] at h
      split at h
      · rename_i p rest hretries
        cases h
        simp [act, hretries, takeCall_rotator, Rotator.machine, Rotator.step]
      · cases h
  | timeout i =>
      simp only [machine, step] at h
      repeat' split at h
      all_goals cases h
      rfl
  | shutdown =>
      cases h
      rfl

/-- **The calls that wait change nothing for the rotator**: a run with
them is one of its own runs, with a `take` for each time a call begins. -/
theorem refines_rotator (h : (machine env).run s as = some t) :
    (Rotator.machine env.options).run s.rotator ((machine env).trace act s as) =
        some t.rotator ∧
      ((machine env).trace act s as).countP Rotator.Action.isTake =
        as.countP Action.begins := by
  have hrefines : (machine env).Refines (Rotator.machine env.options) Calls.rotator act
      (fun _ => True) (fun _ => True) :=
    ⟨fun _ _ _ _ _ _ => trivial, fun _ _ _ _ _ hstep => step_act hstep⟩
  refine ⟨hrefines.run trivial (fun _ _ => trivial) h, ?_⟩
  refine Machine.countP_trace ?_ h
  intro s a
  cases a with
  | rotator a => cases a <;> rfl
  | _ => rfl

/-- One hash for all selectors. -/
def exampleEnv : Env where
  options := { reuse := 3 }
  shorthash _ := "a1".toList

def empty : Calls where
  rotator := Rotator.listing []

/-- A call finds nothing, is woken by a check, and has to wait again. -/
def wokenTooEarly : List Action :=
  [.next [] 0, .enqueued 0, .success "a1".toList 0, .retry 1, .enqueued 0]

theorem refines_rotator_woken :
    ∃ t, (machine exampleEnv).run empty wokenTooEarly = some t ∧
      (Rotator.machine exampleEnv.options).run empty.rotator
          ((machine exampleEnv).trace act empty wokenTooEarly) = some t.rotator ∧
      ((machine exampleEnv).trace act empty wokenTooEarly).countP Rotator.Action.isTake =
        wokenTooEarly.countP Action.begins := by
  obtain ⟨t, ht⟩ : ∃ t, (machine exampleEnv).run empty wokenTooEarly = some t :=
    Option.isSome_iff_exists.mp (by decide +kernel)
  exact ⟨t, ht, refines_rotator ht⟩

/-! ## Where a call is -/

def calls (ps : List Pending) : List Nat := ps.map Pending.call

/-- The calls at all places, an answer being one. -/
def places (s : Calls) : List Nat :=
  calls s.enqueueing ++ (s.timers.map Timer.call ++ (calls s.retries ++ s.settled.map Prod.fst))

/-- What a call goes on with is what was made of its selector. -/
def Asks (s : Calls) (p : Pending) : Prop :=
  (s.asked[p.call]?).map parseProxyHeader = some p.selector.fields

/-- The invariant, with calls that are in the hands of a step. -/
structure Placed (held : List Nat) (s : Calls) : Prop where
  places : (held ++ places s).Perm (List.range s.asked.length)
  /-- who listens has a timer -/
  timed : (calls s.listeners).Sublist (s.timers.map Timer.call)
  due : ∀ x ∈ s.timers, x.due ≤ s.rotator.clock + 5000
  enqueueing : ∀ p ∈ s.enqueueing, Asks s p
  listeners : ∀ p ∈ s.listeners, Asks s p
  retries : ∀ p ∈ s.retries, Asks s p

variable {held : List Nat} {call : Nat}

theorem Placed.nodup_timers (h : Placed held s) : (s.timers.map Timer.call).Nodup := by
  have hnodup := h.places.nodup_iff.mpr List.nodup_range
  exact ((List.nodup_append'.mp (List.nodup_append'.mp (List.nodup_append'.mp hnodup).2.1).2.1).1)

/-- How often a call is at each place. -/
theorem count_places (x : Nat) (s : Calls) :
    (places s).count x = (calls s.enqueueing).count x + (s.timers.map Timer.call).count x +
      (calls s.retries).count x + (s.settled.map Prod.fst).count x := by
  simp only [places, List.count_append]
  omega

/-- The calls have only changed places. -/
theorem places_of_count {held' : List Nat} (h : (held ++ places s).Perm (List.range s.asked.length))
    (hasked : s'.asked = s.asked)
    (hcount : ∀ x, held'.count x + (places s').count x = held.count x + (places s).count x) :
    (held' ++ places s').Perm (List.range s'.asked.length) := by
  rw [hasked]
  refine List.Perm.trans (List.perm_iff_count.mpr ?_) h
  intro x
  rw [List.count_append, List.count_append]
  exact hcount x

theorem Placed.withRotator (h : Placed held s) {r : Rotator} (hclock : s.rotator.clock ≤ r.clock) :
    Placed held { s with rotator := r } :=
  ⟨h.places, h.timed, fun x hx => Nat.le_trans (h.due x hx) (Nat.add_le_add_right hclock _),
    h.enqueueing, h.listeners, h.retries⟩

theorem Placed.settle (h : Placed (call :: held) s) (answer : Option Ref) :
    Placed held { s with settled := s.settled ++ [(call, answer)] } := by
  refine ⟨places_of_count h.places rfl ?_, h.timed, h.due, h.enqueueing, h.listeners, h.retries⟩
  intro x
  simp only [count_places, List.map_append, List.map_cons, List.map_nil, List.count_append,
    List.count_cons, List.count_nil]
  omega

theorem Placed.enqueue {p : Pending} (h : Placed (p.call :: held) s) (hp : Asks s p) :
    Placed held { s with enqueueing := s.enqueueing ++ [p] } := by
  refine ⟨places_of_count h.places rfl ?_, h.timed, h.due, ?_, h.listeners, h.retries⟩
  · intro x
    simp only [count_places, calls, List.map_append, List.map_cons, List.map_nil,
      List.count_append, List.count_cons, List.count_nil]
    omega
  · intro q hq
    rcases List.mem_append.mp hq with hold | hnew
    · exact h.enqueueing q hold
    · rw [List.mem_singleton.mp hnew]
      exact hp

theorem Placed.takeCall {selector : Selector} (h : Placed (call :: held) s)
    (hasks : (s.asked[call]?).map parseProxyHeader = some selector.fields) (elapsed : Nat) :
    Placed held (takeCall env s call selector elapsed) := by
  have hclock : s.rotator.clock ≤
      (s.rotator.take env.options selector.fields elapsed).clock := by
    rw [Rotator.take_clock]
    exact Nat.le_add_right _ _
  have hrotator := h.withRotator hclock
  cases hfound : s.rotator.found selector.fields with
  | some e =>
      rw [takeCall_of_found hfound]
      exact hrotator.settle (some e)
  | none =>
      obtain ⟨rotation, heq⟩ := @takeCall_of_not_found env s call selector hfound elapsed
      rw [heq]
      exact @Placed.enqueue _ held
        ⟨call, ⟨selector.fields, rotation⟩, env.shorthash selector⟩ hrotator hasks

theorem Placed.next (h : Placed [] s) (select : Object) (elapsed : Nat) :
    Placed [] (next env s select elapsed) := by
  have hasked : ∀ p, Asks s p → Asks { s with asked := s.asked ++ [select] } p := by
    intro p hp
    have hlt : p.call < s.asked.length := by
      by_contra hge
      rw [Asks, List.getElem?_eq_none (Nat.le_of_not_lt hge)] at hp
      cases hp
    rw [Asks, List.getElem?_append_left hlt]
    exact hp
  have hheld : Placed [s.asked.length] { s with asked := s.asked ++ [select] } := by
    refine ⟨?_, h.timed, h.due, ?_, ?_, ?_⟩
    · rw [List.length_append, List.length_singleton, List.range_succ]
      exact List.perm_append_comm.trans (h.places.append_right [s.asked.length])
    · exact fun p hp => hasked p (h.enqueueing p hp)
    · exact fun p hp => hasked p (h.listeners p hp)
    · exact fun p hp => hasked p (h.retries p hp)
  exact hheld.takeCall (by simp) elapsed

/-- What is taken out of a list, and the rest. -/
theorem count_eraseIdx {β : Type} {l : List β} {i : Nat} {b : β} (h : l[i]? = some b)
    (f : β → Nat) (x : Nat) :
    (l.map f).count x = [f b].count x + ((l.eraseIdx i).map f).count x := by
  obtain ⟨hi, rfl⟩ := List.getElem?_eq_some_iff.mp h
  have hperm := ((List.getElem_cons_eraseIdx_perm hi).map f).count_eq x
  rw [← hperm, List.map_cons, ← List.singleton_append, List.count_append]

theorem Placed.enqueued (h : Placed held s) {i : Nat} {p : Pending}
    (hp : s.enqueueing[i]? = some p) :
    Placed held (listen { s with enqueueing := s.enqueueing.eraseIdx i } p) := by
  have hasks := h.enqueueing p (List.mem_of_getElem? hp)
  refine ⟨places_of_count h.places rfl ?_, ?_, ?_, ?_, ?_, h.retries⟩
  · intro x
    have hcount := count_eraseIdx hp Pending.call x
    simp only [listen, count_places, calls, List.map_append, List.map_cons, List.map_nil,
      List.count_append] at hcount ⊢
    omega
  · rw [listen, calls, List.map_append, List.map_append]
    exact h.timed.append (List.Sublist.refl _)
  · intro x hx
    rcases List.mem_append.mp hx with hold | hnew
    · exact h.due x hold
    · rw [List.mem_singleton.mp hnew]
      exact Nat.le_refl _
  · exact fun q hq => h.enqueueing q ((List.eraseIdx_sublist _ i).subset hq)
  · intro q hq
    rcases List.mem_append.mp hq with hold | hnew
    · exact h.listeners q hold
    · rw [List.mem_singleton.mp hnew]
      exact hasks

/-- A part of a list can be put behind the rest. -/
theorem filter_notMem_append_perm {l part : List Nat} (hl : l.Nodup) (hpart : part.Sublist l) :
    (l.filter (fun x => x ∉ part) ++ part).Perm l := by
  have hnodup : (l.filter (fun x => x ∉ part) ++ part).Nodup := by
    refine List.nodup_append'.mpr ⟨hl.filter _, hpart.nodup hl, ?_⟩
    intro x hx hin
    exact (of_decide_eq_true (List.mem_filter.mp hx).2) hin
  refine (List.perm_ext_iff_of_nodup hnodup hl).mpr ?_
  intro x
  have hsub : x ∈ part → x ∈ l := fun hx => hpart.subset hx
  simp only [List.mem_append, List.mem_filter, decide_not, Bool.not_eq_true',
    decide_eq_false_iff_not]
  tauto

theorem Placed.emit (h : Placed held s) (reqId : Text) : Placed held (emit s reqId) := by
  have hnodup := h.nodup_timers
  have hwoken : (calls (woken s reqId)).Sublist (s.timers.map Timer.call) :=
    (List.filter_sublist.map _).trans h.timed
  have htimers : (s.timers.filter (fun t => t.call ∉ calls (woken s reqId))).map Timer.call =
      (s.timers.map Timer.call).filter (fun x => x ∉ calls (woken s reqId)) :=
    by rw [List.filter_map]; rfl
  have hkept : calls (s.listeners.filter (fun p => p.reqId ≠ reqId)) =
      (calls s.listeners).filter (fun x => x ∉ calls (woken s reqId)) := by
    unfold calls
    rw [List.filter_map]
    congr 1
    refine List.filter_congr ?_
    intro p hp
    rw [Function.comp_apply, decide_eq_decide, not_iff_not]
    constructor
    · intro heq
      exact List.mem_map_of_mem (List.mem_filter.mpr ⟨hp, decide_eq_true heq⟩)
    · intro hin
      obtain ⟨q, hq, hcall⟩ := List.mem_map.mp hin
      obtain ⟨hq, heq⟩ := List.mem_filter.mp hq
      have hsame : q = p := List.inj_on_of_nodup_map (h.timed.nodup hnodup) hq hp hcall
      rw [← hsame]
      exact of_decide_eq_true heq
  refine ⟨places_of_count h.places rfl ?_, ?_, ?_, h.enqueueing, ?_, ?_⟩
  · intro x
    have hcount := (filter_notMem_append_perm hnodup hwoken).count_eq x
    rw [List.count_append] at hcount
    have htimed : (NextCalls.emit s reqId).timers.map Timer.call =
        (s.timers.map Timer.call).filter (fun x => x ∉ calls (woken s reqId)) := htimers
    have hretries : (calls (NextCalls.emit s reqId).retries).count x =
        (calls s.retries).count x + (calls (woken s reqId)).count x := by
      simp only [NextCalls.emit, calls, List.map_append, List.count_append]
    have henqueueing : (NextCalls.emit s reqId).enqueueing = s.enqueueing := rfl
    have hsettled : (NextCalls.emit s reqId).settled = s.settled := rfl
    rw [count_places, count_places, htimed, hretries, henqueueing, hsettled]
    omega
  · change (calls (s.listeners.filter (fun p => p.reqId ≠ reqId))).Sublist
      ((s.timers.filter (fun t => t.call ∉ calls (woken s reqId))).map Timer.call)
    rw [hkept, htimers]
    exact h.timed.filter _
  · exact fun x hx => h.due x (List.mem_of_mem_filter hx)
  · exact fun p hp => h.listeners p (List.mem_of_mem_filter hp)
  · intro p hp
    rcases List.mem_append.mp hp with hold | hnew
    · exact h.retries p hold
    · exact h.listeners p (List.mem_of_mem_filter hnew)

theorem Placed.timeout (h : Placed held s) {i : Nat} {t : Timer} (ht : s.timers[i]? = some t) :
    Placed held (reject { s with timers := s.timers.eraseIdx i } t) := by
  obtain ⟨hi, hget⟩ := List.getElem?_eq_some_iff.mp ht
  have hnodup := h.nodup_timers
  have htimers : (s.timers.eraseIdx i).map Timer.call =
      (s.timers.map Timer.call).filter (fun x => x ≠ t.call) := by
    have hat : i < (s.timers.map Timer.call).length := by simpa using hi
    have herase := hnodup.erase_getElem i hat
    rw [List.getElem_map, hget, hnodup.erase_eq_filter] at herase
    rw [← List.eraseIdx_map, ← herase]
    refine List.filter_congr ?_
    intro x _
    by_cases hx : x = t.call <;> simp [hx]
  refine ⟨places_of_count h.places rfl ?_, ?_, ?_, h.enqueueing, ?_, h.retries⟩
  · intro x
    have hcount := count_eraseIdx ht Timer.call x
    simp only [reject, count_places, List.map_append, List.map_cons, List.map_nil,
      List.count_append] at hcount ⊢
    omega
  · rw [reject, htimers]
    refine List.Sublist.trans ?_ (h.timed.filter _)
    rw [calls, calls, List.filter_map]
    exact List.Sublist.refl _
  · exact fun x hx => h.due x ((List.eraseIdx_sublist _ i).subset hx)
  · exact fun p hp => h.listeners p (List.mem_of_mem_filter hp)

theorem Placed.retry (h : Placed held s) {p : Pending} {rest : List Pending}
    (hretries : s.retries = p :: rest) :
    Placed (p.call :: held) { s with retries := rest } ∧ Asks s p := by
  have hasks := h.retries
  rw [hretries] at hasks
  refine ⟨⟨places_of_count h.places rfl ?_, h.timed, h.due, h.enqueueing, h.listeners, ?_⟩,
    hasks p List.mem_cons_self⟩
  · intro x
    simp only [count_places, calls, hretries, List.map_cons, List.count_cons]
    omega
  · exact fun q hq => hasks q (List.mem_cons_of_mem _ hq)

theorem placed_start (r : Rotator) : Placed [] { rotator := r } := by
  constructor <;> simp [places, calls]

theorem Placed.step (h : Placed [] s) {a : Action} (hstep : (machine env).step s a = some s') :
    Placed [] s' := by
  cases a with
  | rotator a =>
      simp only [machine, NextCalls.step] at hstep
      split at hstep
      · cases hstep
      · obtain ⟨r, hr, rfl⟩ := Option.map_eq_some_iff.mp hstep
        exact h.withRotator (Rotator.step_clock hr)
  | next select elapsed =>
      cases hstep
      exact h.next select elapsed
  | enqueued i =>
      obtain ⟨p, hp, rfl⟩ := Option.map_eq_some_iff.mp hstep
      exact h.enqueued hp
  | success reqId workLoad =>
      cases hstep
      have hclock : s.rotator.clock ≤ (s.rotator.doSucceeded workLoad).clock :=
        @Rotator.step_clock env.options _ _ (.doSucceeded workLoad) rfl
      exact (h.withRotator hclock).emit reqId
  | retry elapsed =>
      simp only [machine, NextCalls.step] at hstep
      split at hstep
      · rename_i p rest hretries
        cases hstep
        obtain ⟨hheld, hasks⟩ := h.retry hretries
        exact hheld.takeCall hasks elapsed
      · cases hstep
  | timeout i =>
      simp only [machine, NextCalls.step] at hstep
      split at hstep
      · rename_i t ht
        split at hstep
        · cases hstep
          exact h.timeout ht
        · cases hstep
      · cases hstep
  | shutdown =>
      cases hstep
      exact ⟨h.places, List.nil_sublist _, h.due, h.enqueueing, by simp, h.retries⟩

theorem placed_run {r : Rotator} (h : (machine env).run { rotator := r } as = some s) :
    Placed [] s :=
  (machine env).run_invariant (fun _ _ _ hplaced hstep => hplaced.step hstep) (placed_start r) h

/-- **No call is lost, and none is answered twice.** In every run each
call of `next` is at one place: in `doEnqueue`, behind a timer, about to
begin again, or answered. Who listens has a timer, none is further away
than 5 s, and when it is due the call is rejected and listens no more. -/
theorem calls_run {r : Rotator} (h : (machine env).run { rotator := r } as = some s) :
    (places s).Perm (List.range s.asked.length) ∧
      (calls s.listeners).Sublist (s.timers.map Timer.call) ∧
      ∀ i t, s.timers[i]? = some t → t.due ≤ s.rotator.clock + 5000 ∧
        (t.due ≤ s.rotator.clock → ∃ s', (machine env).step s (.timeout i) = some s' ∧
          s'.settled = s.settled ++ [(t.call, none)] ∧ t.call ∉ calls s'.listeners) := by
  have hplaced := placed_run h
  refine ⟨hplaced.places, hplaced.timed, ?_⟩
  intro i t ht
  refine ⟨hplaced.due t (List.mem_of_getElem? ht), ?_⟩
  intro hdue
  refine ⟨reject { s with timers := s.timers.eraseIdx i } t, ?_, rfl, ?_⟩
  · simp only [machine, step, ht, if_pos hdue]
  · simp [reject, calls]

/-- The state behind some steps; the first one if they are not possible. -/
def after (s : Calls) (as : List Action) : Calls := ((machine exampleEnv).run s as).getD s

theorem calls_run_woken :
    (places (after empty wokenTooEarly)).Perm (List.range 1) ∧
      (calls (after empty wokenTooEarly).listeners).Sublist
        ((after empty wokenTooEarly).timers.map Timer.call) ∧
      ∀ i t, (after empty wokenTooEarly).timers[i]? = some t → t.due ≤ 5001 + 5000 ∧
        (t.due ≤ 5001 → ∃ s', (machine exampleEnv).step (after empty wokenTooEarly) (.timeout i) =
          some s' ∧ s'.settled = (after empty wokenTooEarly).settled ++ [(t.call, none)] ∧
          t.call ∉ calls s'.listeners) :=
  @calls_run exampleEnv (after empty wokenTooEarly) wokenTooEarly (Rotator.listing []) rfl

/-! ## What a call is resolved with -/

theorem mem_settled_takeCall {call : Nat} {selector : Selector} {elapsed c : Nat} {e : Ref}
    (hin : (c, some e) ∈ (takeCall env s call selector elapsed).settled)
    (hnew : (c, some e) ∉ s.settled) :
    c = call ∧ s.rotator.found selector.fields = some e := by
  cases hfound : s.rotator.found selector.fields with
  | some x =>
      rw [takeCall_of_found hfound] at hin
      rcases List.mem_append.mp hin with hold | hlast
      · exact absurd hold hnew
      · have hpair := List.mem_singleton.mp hlast
        cases hpair
        exact ⟨rfl, rfl⟩
  | none =>
      obtain ⟨rotation, heq⟩ := @takeCall_of_not_found env s call selector hfound elapsed
      rw [heq] at hin
      exact absurd hin hnew

/-- A call is resolved only by what `take` finds. -/
theorem Placed.resolved (h : Placed [] s) {a : Action} (hstep : (machine env).step s a = some s')
    {c : Nat} {e : Ref} (hin : (c, some e) ∈ s'.settled) (hnew : (c, some e) ∉ s.settled) :
    ∃ select, s'.asked[c]? = some select ∧
      s.rotator.found (parseProxyHeader select) = some e := by
  cases a with
  | rotator a =>
      simp only [machine, NextCalls.step] at hstep
      split at hstep
      · cases hstep
      · obtain ⟨r, -, rfl⟩ := Option.map_eq_some_iff.mp hstep
        exact absurd hin hnew
  | next select elapsed =>
      cases hstep
      obtain ⟨rfl, hfound⟩ := mem_settled_takeCall hin hnew
      refine ⟨select, ?_, hfound⟩
      rw [NextCalls.next, asked_takeCall]
      simp
  | enqueued i =>
      obtain ⟨p, -, rfl⟩ := Option.map_eq_some_iff.mp hstep
      exact absurd hin hnew
  | success reqId workLoad =>
      cases hstep
      exact absurd hin hnew
  | retry elapsed =>
      simp only [machine, NextCalls.step] at hstep
      split at hstep
      · rename_i p rest hretries
        cases hstep
        obtain ⟨rfl, hfound⟩ := mem_settled_takeCall hin hnew
        obtain ⟨select, hselect, hfields⟩ := Option.map_eq_some_iff.mp (h.retry hretries).2
        refine ⟨select, ?_, by rw [hfields]; exact hfound⟩
        rw [asked_takeCall]
        exact hselect
      · cases hstep
  | timeout i =>
      simp only [machine, NextCalls.step] at hstep
      split at hstep
      · split at hstep
        · cases hstep
          rcases List.mem_append.mp hin with hold | hlast
          · exact absurd hold hnew
          · cases List.mem_singleton.mp hlast
        · cases hstep
      · cases hstep
  | shutdown =>
      cases hstep
      exact absurd hin hnew

/-- **What a call gets.** In any run, an entry a call is resolved with is
listed at that moment, matches the selector `parseProxyHeader` makes of the
call's, and has had its pause. -/
theorem served_step {r : Rotator} (h : (machine env).run { rotator := r } as = some s)
    {a : Action} (hstep : (machine env).step s a = some s') {c : Nat} {e : Ref}
    (hin : (c, some e) ∈ s'.settled) (hnew : (c, some e) ∉ s.settled) :
    ∃ select, s'.asked[c]? = some select ∧ e ∈ s.rotator.activeList ∧
      selectorMatches (parseProxyHeader select) (s.rotator.heap e).state = true ∧
      (s.rotator.heap e).odd = 0 ∧ (s.rotator.heap e).updatedAt + 2000 ≤ s.rotator.clock := by
  obtain ⟨select, hselect, hfound⟩ := (placed_run h).resolved hstep hin hnew
  obtain ⟨hmem, hodd, hpause⟩ := Rotator.found_spec hfound
  have helig := List.find?_some hfound
  simp only [Rotator.eligible, Bool.and_eq_true] at helig
  exact ⟨select, hselect, hmem, helig.2, hodd, hpause⟩

/-- Two seconds later the same check wakes the call in time. -/
def wokenInTime : List Action :=
  wokenTooEarly ++ [.rotator (.tick 2000), .success "a1".toList 0]

theorem served_step_woken :
    ∃ select, [([] : Object)][0]? = some select ∧ 0 ∈ [0] ∧
      selectorMatches (parseProxyHeader select) Rotator.exampleAddr.state = true ∧
      (0 : Nat) = 0 ∧ 5000 + 2000 ≤ 7001 :=
  @served_step exampleEnv (after empty wokenInTime)
    (after (after empty wokenInTime) [.retry 0]) wokenInTime (Rotator.listing []) rfl (.retry 0) rfl
    0 0 (by decide +kernel) (by decide +kernel)

/-! ## The proxy that has woken a call -/

theorem updatedAt_updateList (options : RotatorOptions) (r : Rotator) (e : Ref) :
    ((r.updateList options).heap e).updatedAt = (r.heap e).updatedAt := by
  rw [Rotator.updateList_heap]
  exact Function.Iterate.rec (fun a : IpAddr => a.updatedAt = (r.heap e).updatedAt) rfl
    (fun a ha => (Rotator.stepOdd_updatedAt options a).trans ha) _

/-- The date of an entry is left as it is, or set to the clock. -/
theorem updatedAt_step {options : RotatorOptions} {r r' : Rotator} {a : Rotator.Action}
    (h : Rotator.step options r a = some r') (e : Ref) :
    (r'.heap e).updatedAt = (r.heap e).updatedAt ∨ r.clock ≤ (r'.heap e).updatedAt := by
  cases a with
  | take selector elapsed =>
      cases h
      have hsame := updatedAt_updateList options r e
      cases hfound : r.found selector with
      | none =>
          rw [Rotator.take_of_not_found options hfound]
          exact .inl hsame
      | some x =>
          rw [Rotator.take_of_found options hfound]
          by_cases hx : e = x
          · right
            simp [Rotator.useAddr, hx]
          · left
            rw [Rotator.useAddr, Rotator.modify_heap_of_ne _ hx]
            exact hsame
  | doSucceeded w =>
      cases h
      simp only [Rotator.doSucceeded]
      split
      · exact .inl rfl
      · by_cases hw : e = w
        · right
          simp [hw, Rotator.listed]
        · left
          change ((r.modify w (Rotator.listed r.clock)).heap e).updatedAt = _
          rw [Rotator.modify_heap_of_ne _ hw]
  | logGo i =>
      obtain ⟨call, -, rfl⟩ := Option.map_eq_some_iff.mp h
      exact .inl (Rotator.logGo_heap r i call e).2.updatedAt
  | logFail i =>
      rw [Rotator.logFail_spec h]
      exact .inl rfl
  | tick ms => cases h; exact .inl rfl
  | doLog ip test => cases h; exact .inl rfl
  | onEmpty => cases h; exact .inl rfl
  | removeUnusedProxies => cases h; exact .inl rfl

/-- An entry was touched at `since` or later. -/
def TouchedSince (since : Nat) (e : Ref) (s : Calls) : Prop :=
  since ≤ s.rotator.clock ∧ since ≤ (s.rotator.heap e).updatedAt

theorem TouchedSince.step {since : Nat} {e : Ref} (h : TouchedSince since e s) {a : Action}
    (hstep : (machine env).step s a = some s') : TouchedSince since e s' := by
  obtain ⟨hclock, htouched⟩ := h
  have hrotator := step_act hstep
  cases hact : act s a with
  | none =>
      rw [hact] at hrotator
      have hsame : s.rotator = s'.rotator := Option.some.inj hrotator
      rw [TouchedSince, ← hsame]
      exact ⟨hclock, htouched⟩
  | some b =>
      rw [hact, Option.toList_some, Machine.run_singleton] at hrotator
      refine ⟨Nat.le_trans hclock (Rotator.step_clock hrotator), ?_⟩
      rcases updatedAt_step hrotator e with hsame | hset
      · rw [hsame]
        exact htouched
      · exact Nat.le_trans hclock hset

/-- A success lists a proxy with the date of the clock. -/
theorem touched_of_listed {reqId : Text} {w : Ref}
    (hstep : (machine env).step s (.success reqId w) = some s')
    (hbefore : w ∉ s.rotator.activeList) (hafter : w ∈ s'.rotator.activeList) :
    TouchedSince s'.rotator.clock w s' := by
  cases hstep
  refine ⟨Nat.le_refl _, ?_⟩
  simp only [emit, Rotator.doSucceeded] at hafter ⊢
  split at hafter
  · exact absurd hafter hbefore
  · simp [Rotator.listed]

/-- **A proxy is not handed out for two seconds after its check has listed
it**, whatever happens in between. So the success that has woken a call
is not what the call gets at once. -/
theorem served_after_pause {r : Rotator} (h : (machine env).run { rotator := r } as = some s)
    {reqId : Text} {w : Ref} {s₁ s₂ s₃ : Calls}
    (hsuccess : (machine env).step s (.success reqId w) = some s₁)
    (hbefore : w ∉ s.rotator.activeList) (hafter : w ∈ s₁.rotator.activeList) {bs : List Action}
    (hrun : (machine env).run s₁ bs = some s₂) {a : Action}
    (hstep : (machine env).step s₂ a = some s₃) {c : Nat} (hin : (c, some w) ∈ s₃.settled)
    (hnew : (c, some w) ∉ s₂.settled) : s₁.rotator.clock + 2000 ≤ s₂.rotator.clock := by
  have htouched : TouchedSince s₁.rotator.clock w s₂ :=
    (machine env).run_invariant (fun _ _ _ ht hnext => ht.step hnext)
      (touched_of_listed hsuccess hbefore hafter) hrun
  have hplaced : Placed [] s₂ :=
    (machine env).run_invariant (fun _ _ _ hp hnext => hp.step hnext)
      ((placed_run h).step hsuccess) hrun
  obtain ⟨select, -, hfound⟩ := hplaced.resolved hstep hin hnew
  have hpause := (Rotator.found_spec hfound).2.2
  exact Nat.le_trans (Nat.add_le_add_right htouched.2 _) hpause

theorem served_after_pause_woken : 5000 + 2000 ≤ 7001 :=
  @served_after_pause exampleEnv (after empty [.next [] 0, .enqueued 0]) [.next [] 0, .enqueued 0]
    (Rotator.listing []) rfl "a1".toList 0
    (after (after empty [.next [] 0, .enqueued 0]) [.success "a1".toList 0])
    (after empty wokenInTime) (after (after empty wokenInTime) [.retry 0]) rfl
    (by decide +kernel) (by decide +kernel)
    [.retry 1, .enqueued 0, .rotator (.tick 2000), .success "a1".toList 0] rfl (.retry 0) rfl
    0 (by decide +kernel) (by decide +kernel)

end ProxyBroker.Proxy.NextCalls
