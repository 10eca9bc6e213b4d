/-
ProxyBroker.Server.HandlesTheorems — the handles of a broker over any run.

* `Kept` — the invariant: the ids grow, what has not finished is in
  `handles`, what has finished and is there still waits for its `then`,
  and nobody waits for an empty list when it is empty (`kept_run`);
* `handles_run` — a socket is found by its id until its handle has
  finished, and with no promise left `handles` is what has not finished;
* `preFinalize_run` — the calls of `preFinalize` resolve in their order,
  each once, and only when all handles have finished.
-/
import Mathlib.Data.List.Nodup
import Mathlib.Data.List.Range
import ProxyBroker.Server.Handles
import ProxyBroker.Server.SocketHandleTheorems

namespace ProxyBroker.Server.Handles

open Lib SocketHandle

/-! ## Finishing -/

theorem readStatus_finished (host : Host) (query : Bytes) (h : SocketHandle) :
    (readStatus host query h).finished = h.finished := by
  cases hm : statusMatch (Utf8.decode query) <;> simp [readStatus, hm]

/-- What has finished stays so. -/
theorem finished_of_onData {host : Host} {h h' : SocketHandle} {chunk : Bytes}
    (he : onData host h chunk = .ok h') : h'.finished = h.finished := by
  by_cases hs : (h.sslDetect || looksTls chunk) = true
  · rw [onData_tls host hs] at he
    cases he
    rfl
  · simp only [Bool.not_eq_true, Bool.or_eq_false_iff] at hs
    cases hd : h.data with
    | some old =>
        rw [onData_later host hs.1 hs.2 hd] at he
        cases he
        rfl
    | none =>
        rw [onData_first host hs.1 hs.2 hd] at he
        cases hhead : head? chunk with
        | none =>
            rw [hhead] at he
            cases he
            rfl
        | some head =>
            by_cases hcolons : head.Colons
            · simp only [hhead, if_pos hcolons, Except.ok.injEq] at he
              rw [← he]
              exact readStatus_finished host head.query _
            · simp [hhead, if_neg hcolons] at he

theorem finished_of_handleEvent {host : Host} {h h' : SocketHandle} {e : Event}
    (he : handleEvent host h e = .ok h') (hfinished : h.finished = true) :
    h'.finished = true := by
  cases e with
  | data chunk => rw [finished_of_onData he, hfinished]
  | removeHeader key => cases he; exact hfinished
  | setHeader orgKey value => cases he; exact hfinished
  | error err => cases he; rfl
  | timeout =>
      cases he
      unfold onTimeout
      split <;> rfl
  | close => cases he; rfl
  | finish => cases he; rfl

theorem finish_of_finished {h : SocketHandle} (hfinished : h.finished = true) : h.finish = h := by
  cases h
  cases hfinished
  rfl

/-! ## Sockets and their ids -/

variable {host : Host} {s s' : ProxyServer}

def ids (s : ProxyServer) : List Nat := s.sockets.map Prod.fst

/-- The part of the invariant that does not speak of `handles`. -/
structure Base (s : ProxyServer) : Prop where
  sorted : (ids s).Pairwise (· < ·)
  below : ∀ x ∈ s.sockets, x.1 < s.inc
  settled : ∀ id ∈ s.settled, ∃ x ∈ s.sockets, x.1 = id ∧ x.2.finished = true
  once : s.settled.Nodup

theorem Base.nodup (h : Base s) : (ids s).Nodup := h.sorted.imp Nat.ne_of_lt

/-- One handle for an id. -/
theorem Base.unique (h : Base s) {x y : Nat × SocketHandle} (hx : x ∈ s.sockets)
    (hy : y ∈ s.sockets) (heq : x.1 = y.1) : x = y :=
  List.inj_on_of_nodup_map h.nodup hx hy heq

theorem mem_of_handleOf {id : Nat} {handle : SocketHandle} (h : handleOf s id = some handle) :
    (id, handle) ∈ s.sockets := by
  obtain ⟨x, hfind, rfl⟩ := Option.map_eq_some_iff.mp h
  have hid : x.1 = id := by simpa using List.find?_some hfind
  rw [← hid]
  exact List.mem_of_find?_eq_some hfind

theorem Base.handleOf_eq (h : Base s) {x : Nat × SocketHandle} (hx : x ∈ s.sockets) :
    handleOf s x.1 = some x.2 := by
  cases hfind : s.sockets.find? (·.1 = x.1) with
  | none =>
      have hno := List.find?_eq_none.mp hfind x hx
      simp at hno
  | some y =>
      have hid : y.1 = x.1 := by simpa using List.find?_some hfind
      rw [handleOf, hfind, h.unique (List.mem_of_find?_eq_some hfind) hx hid]
      rfl

theorem ids_update (s : ProxyServer) (id : Nat) (handle handle' : SocketHandle) :
    ids (update s id handle handle') = ids s := by
  simp only [ids, update, List.map_map]
  refine List.map_congr_left ?_
  intro x hx
  simp only [Function.comp_apply]
  split <;> rfl

theorem mem_update {id : Nat} {handle handle' : SocketHandle} {x : Nat × SocketHandle} :
    x ∈ (update s id handle handle').sockets ↔
      ∃ y ∈ s.sockets, x = if y.1 = id then (y.1, handle') else y := by
  simp only [update, List.mem_map]
  exact exists_congr fun y => and_congr_right fun _ => eq_comm

theorem Base.update (h : Base s) {id : Nat} {handle handle' : SocketHandle}
    (hmem : (id, handle) ∈ s.sockets)
    (hkeeps : handle.finished = true → handle'.finished = true) :
    Base (update s id handle handle') := by
  have hthere : (id, handle') ∈ (Handles.update s id handle handle').sockets :=
    mem_update.mpr ⟨_, hmem, by simp⟩
  have hsettled : ∀ k ∈ s.settled,
      ∃ x ∈ (Handles.update s id handle handle').sockets, x.1 = k ∧ x.2.finished = true := by
    intro k hk
    obtain ⟨x, hx, rfl, hfinished⟩ := h.settled k hk
    by_cases hid : x.1 = id
    · have hsame : x = (id, handle) := h.unique hx hmem hid
      exact ⟨_, hthere, hid.symm, hkeeps (by rw [hsame] at hfinished; exact hfinished)⟩
    · exact ⟨x, mem_update.mpr ⟨x, hx, by simp [hid]⟩, rfl, hfinished⟩
  refine ⟨?_, ?_, ?_, ?_⟩
  · rw [ids_update]
    exact h.sorted
  · intro x hx
    obtain ⟨y, hy, rfl⟩ := mem_update.mp hx
    have hbelow := h.below y hy
    split
    · exact hbelow
    · exact hbelow
  · intro k hk
    simp only [Handles.update] at hk
    split at hk
    · rename_i hnow
      rw [Bool.and_eq_true] at hnow
      rcases List.mem_append.mp hk with hold | hnew
      · exact hsettled k hold
      · rw [List.mem_singleton.mp hnew]
        exact ⟨_, hthere, rfl, hnow.2⟩
    · exact hsettled k hk
  · simp only [Handles.update]
    split
    · rename_i hnow
      rw [Bool.and_eq_true, Bool.not_eq_true'] at hnow
      rw [← List.concat_eq_append, List.nodup_concat]
      refine ⟨?_, h.once⟩
      intro hin
      obtain ⟨x, hx, hid, hfinished⟩ := h.settled id hin
      rw [h.unique hx hmem hid, hnow.1] at hfinished
      cases hfinished
    · exact h.once

/-! ## The loop of the timer -/

theorem sockets_finishHandle (h : Base s) (id : Nat) :
    (finishHandle s id).sockets =
      s.sockets.map (fun x => if x.1 = id then (x.1, x.2.finish) else x) := by
  unfold finishHandle
  split
  · rename_i handle hhandle
    refine List.map_congr_left ?_
    intro x hx
    split
    · rename_i hid
      rw [h.unique hx (mem_of_handleOf hhandle) hid]
    · rfl
  · rename_i hnone
    refine ((List.map_congr_left ?_).trans (List.map_id _)).symm
    intro x hx
    refine if_neg ?_
    rintro rfl
    rw [h.handleOf_eq hx] at hnone
    cases hnone

theorem Base.finishHandle (h : Base s) (id : Nat) : Base (finishHandle s id) := by
  unfold Handles.finishHandle
  split
  · rename_i handle hhandle
    exact h.update (mem_of_handleOf hhandle) fun _ => rfl
  · exact h

theorem finishHandle_frame (s : ProxyServer) (id : Nat) :
    (finishHandle s id).inc = s.inc ∧ (finishHandle s id).handles = s.handles ∧
      (finishHandle s id).calls = s.calls ∧ (finishHandle s id).waiting = s.waiting ∧
      (finishHandle s id).resolved = s.resolved := by
  unfold finishHandle
  split <;> exact ⟨rfl, rfl, rfl, rfl, rfl⟩

theorem Base.withHandles (h : Base s) (handles : List Nat) :
    Base { s with handles := handles } :=
  ⟨h.sorted, h.below, h.settled, h.once⟩

/-- **The loop finishes what is in the list.** -/
theorem finishHandles_spec (h : Base s) (list : List Nat) :
    Base (finishHandles list s) ∧
      (finishHandles list s).sockets =
        s.sockets.map (fun x => if x.1 ∈ list then (x.1, x.2.finish) else x) ∧
      (finishHandles list s).handles = (if list = [] then s.handles else []) ∧
      (finishHandles list s).calls = s.calls ∧ (finishHandles list s).waiting = s.waiting ∧
      (finishHandles list s).resolved = s.resolved := by
  induction list generalizing s with
  | nil => exact ⟨h, by simp [finishHandles], rfl, rfl, rfl, rfl⟩
  | cons id rest ih =>
      have hbase := (h.withHandles rest).finishHandle id
      have hsockets := sockets_finishHandle (h.withHandles rest) id
      obtain ⟨-, hhandles, hcalls, hwaiting, hresolved⟩ :=
        finishHandle_frame { s with handles := rest } id
      obtain ⟨h₁, h₂, h₃, h₄, h₅, h₆⟩ := ih hbase
      refine ⟨h₁, ?_, ?_, h₄.trans hcalls, h₅.trans hwaiting, h₆.trans hresolved⟩
      · rw [finishHandles, h₂, hsockets, List.map_map]
        refine List.map_congr_left ?_
        intro x hx
        simp only [Function.comp_apply, List.mem_cons]
        by_cases hid : x.1 = id
        · by_cases hin : x.1 ∈ rest <;> simp [hid, finish]
        · simp [hid]
      · rw [finishHandles, h₃, hhandles]
        cases rest <;> rfl

/-! ## The invariant -/

structure Kept (s : ProxyServer) : Prop extends Base s where
  order : s.handles.Sublist (ids s)
  live : ∀ x ∈ s.sockets, x.2.finished = false → x.1 ∈ s.handles
  dead : ∀ x ∈ s.sockets, x.2.finished = true → x.1 ∈ s.handles → x.1 ∈ s.settled
  waits : s.waiting ≠ [] → s.handles ≠ []
  calls : s.resolved ++ s.waiting = List.range s.calls

theorem kept_start : Kept {} := by
  constructor
  · constructor <;> simp [ids]
  all_goals simp

theorem Kept.createSocketHandle (h : Kept s) : Kept (createSocketHandle s) := by
  have hids : ids (Handles.createSocketHandle s) = ids s ++ [s.inc] := by
    simp [ids, Handles.createSocketHandle]
  have hmem : ∀ x, x ∈ (Handles.createSocketHandle s).sockets →
      x ∈ s.sockets ∨ x = (s.inc, {}) := by
    intro x hx
    simpa [Handles.createSocketHandle] using hx
  refine ⟨⟨?_, ?_, ?_, h.once⟩, ?_, ?_, ?_, ?_, h.calls⟩
  · rw [hids, List.pairwise_append]
    refine ⟨h.sorted, List.pairwise_singleton _ _, ?_⟩
    intro k hk l hl
    obtain ⟨x, hx, rfl⟩ := List.mem_map.mp hk
    rw [List.mem_singleton.mp hl]
    exact h.below x hx
  · intro x hx
    rcases hmem x hx with hold | rfl
    · exact Nat.lt_succ_of_lt (h.below x hold)
    · exact Nat.lt_succ_self _
  · intro id hid
    obtain ⟨x, hx, heq, hfinished⟩ := h.settled id hid
    exact ⟨x, List.mem_append_left _ hx, heq, hfinished⟩
  · rw [hids]
    exact h.order.append (List.Sublist.refl _)
  · intro x hx hlive
    rcases hmem x hx with hold | rfl
    · exact List.mem_append_left _ (h.live x hold hlive)
    · exact List.mem_append_right _ (List.mem_singleton.mpr rfl)
  · intro x hx hfinished hin
    rcases hmem x hx with hold | rfl
    · rcases List.mem_append.mp hin with hin | hin
      · exact h.dead x hold hfinished hin
      · exact absurd (List.mem_singleton.mp hin) (Nat.ne_of_lt (h.below x hold))
    · cases hfinished
  · intro _
    simp [Handles.createSocketHandle]

theorem Kept.update (h : Kept s) {id : Nat} {handle handle' : SocketHandle}
    (hmem : (id, handle) ∈ s.sockets)
    (hkeeps : handle.finished = true → handle'.finished = true) :
    Kept (update s id handle handle') := by
  refine ⟨h.toBase.update hmem hkeeps, ?_, ?_, ?_, h.waits, h.calls⟩
  · rw [ids_update]
    exact h.order
  · intro x hx hlive
    obtain ⟨y, hy, rfl⟩ := mem_update.mp hx
    by_cases hid : y.1 = id
    · rw [if_pos hid] at hlive ⊢
      refine h.live y hy ?_
      rw [h.unique hy hmem hid]
      cases hold : handle.finished with
      | false => rfl
      | true =>
          rw [hkeeps hold] at hlive
          cases hlive
    · rw [if_neg hid] at hlive ⊢
      exact h.live y hy hlive
  · intro x hx hfinished hin
    obtain ⟨y, hy, rfl⟩ := mem_update.mp hx
    by_cases hid : y.1 = id
    · rw [if_pos hid] at hfinished hin ⊢
      cases hold : handle.finished with
      | false =>
          simp only [Handles.update, hold, Bool.not_false, Bool.true_and]
          rw [if_pos hfinished, hid]
          exact List.mem_append_right _ (List.mem_singleton.mpr rfl)
      | true =>
          have hsettled := h.dead y hy (by rw [h.unique hy hmem hid]; exact hold) hin
          simpa [Handles.update, hold] using hsettled
    · rw [if_neg hid] at hfinished hin ⊢
      have hsettled := h.dead y hy hfinished hin
      simp only [Handles.update]
      split
      · exact List.mem_append_left _ hsettled
      · exact hsettled

/-- The first promise of the queue. -/
theorem Kept.removeHandle (h : Kept s) {id : Nat} {rest : List Nat}
    (hsettled : s.settled = id :: rest) : Kept (removeHandle { s with settled := rest } id) := by
  have honce := h.once
  have hdead := h.settled
  rw [hsettled] at honce hdead
  obtain ⟨y, hy, hyid, hyfinished⟩ := hdead id List.mem_cons_self
  have hbase : Base { s with settled := rest } :=
    ⟨h.sorted, h.below, fun k hk => hdead k (List.mem_cons_of_mem _ hk), honce.of_cons⟩
  have horder : (s.handles.filter (· ≠ id)).Sublist (ids s) := List.filter_sublist.trans h.order
  have hlive : ∀ x ∈ s.sockets, x.2.finished = false → x.1 ∈ s.handles.filter (· ≠ id) := by
    intro x hx hunfinished
    refine List.mem_filter.mpr ⟨h.live x hx hunfinished, ?_⟩
    rw [decide_eq_true_eq]
    intro hid
    rw [h.unique hx hy (hid.trans hyid.symm), hyfinished] at hunfinished
    cases hunfinished
  have hleft : ∀ x ∈ s.sockets, x.2.finished = true → x.1 ∈ s.handles.filter (· ≠ id) →
      x.1 ∈ rest := by
    intro x hx hfinished hin
    obtain ⟨hin, hne⟩ := List.mem_filter.mp hin
    have hmem := h.dead x hx hfinished hin
    rw [hsettled] at hmem
    exact (List.mem_cons.mp hmem).resolve_left (of_decide_eq_true hne)
  simp only [Handles.removeHandle]
  split
  · rename_i hempty
    refine ⟨⟨hbase.sorted, hbase.below, hbase.settled, hbase.once⟩, horder, hlive, hleft, ?_, ?_⟩
    · intro hne
      exact absurd rfl hne
    · simp only [emitEmpty, List.append_nil]
      exact h.calls
  · rename_i hne
    refine ⟨⟨hbase.sorted, hbase.below, hbase.settled, hbase.once⟩, horder, hlive, hleft, ?_,
      h.calls⟩
    intro _ hnil
    exact hne (List.length_eq_zero_iff.mpr hnil)

theorem Kept.finished_of_handles (h : Kept s) (hempty : s.handles = []) :
    ∀ x ∈ s.sockets, x.2.finished = true := by
  intro x hx
  cases hfinished : x.2.finished with
  | true => rfl
  | false =>
      have hin := h.live x hx hfinished
      rw [hempty] at hin
      cases hin

theorem Kept.handles_eq_of_waits (h : Kept s) (hempty : s.handles = []) : s.waiting = [] := by
  by_contra hne
  exact h.waits hne hempty

theorem Kept.preFinalize (h : Kept s) : Kept (preFinalize s) := by
  have hcalls := h.calls
  unfold Handles.preFinalize
  split
  · rename_i hpos
    refine ⟨⟨h.sorted, h.below, h.settled, h.once⟩, h.order, h.live, h.dead, ?_, ?_⟩
    · intro _
      exact List.length_pos_iff.mp hpos
    · simp only [List.range_succ, ← hcalls, List.append_assoc]
  · rename_i hno
    have hempty : s.handles = [] := List.length_eq_zero_iff.mp (by omega)
    have hwaiting := h.handles_eq_of_waits hempty
    refine ⟨⟨h.sorted, h.below, h.settled, h.once⟩, h.order, h.live, h.dead, h.waits, ?_⟩
    rw [hwaiting, List.append_nil] at hcalls
    simp only [List.range_succ, ← hcalls, hwaiting, List.append_nil]

/-- **The timer finishes every handle**, and that is all it does to them. -/
theorem Kept.onTimer_sockets (h : Kept s) :
    (onTimer s).sockets = s.sockets.map (fun x => (x.1, x.2.finish)) := by
  obtain ⟨-, hsockets, -⟩ := finishHandles_spec h.toBase s.handles
  rw [onTimer, emitEmpty, hsockets]
  refine List.map_congr_left ?_
  intro x hx
  by_cases hin : x.1 ∈ s.handles
  · rw [if_pos hin]
  · rw [if_neg hin]
    have hfinished : x.2.finished = true := by
      by_contra hlive
      exact hin (h.live x hx (Bool.eq_false_iff.mpr hlive))
    rw [finish_of_finished hfinished]

theorem Kept.onTimer_handles (h : Kept s) : (onTimer s).handles = [] := by
  obtain ⟨-, -, hhandles, -⟩ := finishHandles_spec h.toBase s.handles
  refine hhandles.trans ?_
  split
  · assumption
  · rfl

theorem Kept.onTimer (h : Kept s) : Kept (onTimer s) := by
  have hsockets := h.onTimer_sockets
  have hempty := h.onTimer_handles
  obtain ⟨hbase, -, -, hcalls, hwaiting, hresolved⟩ := finishHandles_spec h.toBase s.handles
  refine ⟨⟨hbase.sorted, hbase.below, hbase.settled, hbase.once⟩, ?_, ?_, ?_, ?_, ?_⟩
  · rw [hempty]
    exact List.nil_sublist _
  · intro x hx hlive
    rw [hsockets] at hx
    obtain ⟨y, -, rfl⟩ := List.mem_map.mp hx
    cases hlive
  · intro x _ _ hin
    rw [hempty] at hin
    cases hin
  · intro hne
    exact absurd rfl hne
  · simp only [Handles.onTimer, emitEmpty, hcalls, hwaiting, hresolved, List.append_nil]
    exact h.calls

theorem Kept.step (h : Kept s) {a : Action} (hstep : (machine host).step s a = some s') :
    Kept s' := by
  cases a with
  | otherServer =>
      cases hstep
      exact ⟨⟨h.sorted, fun x hx => Nat.lt_succ_of_lt (h.below x hx), h.settled, h.once⟩, h.order,
        h.live, h.dead, h.waits, h.calls⟩
  | connection =>
      cases hstep
      exact h.createSocketHandle
  | socket id e =>
      simp only [machine, Handles.step] at hstep
      split at hstep
      · rename_i handle hhandle
        split at hstep
        · rename_i handle' hevent
          cases hstep
          exact h.update (mem_of_handleOf hhandle) (finished_of_handleEvent hevent)
        · cases hstep
      · cases hstep
  | microtask =>
      simp only [machine, Handles.step] at hstep
      split at hstep
      · rename_i id rest hsettled
        cases hstep
        exact h.removeHandle hsettled
      · cases hstep
  | preFinalize =>
      cases hstep
      exact h.preFinalize
  | timer call =>
      simp only [machine, Handles.step] at hstep
      split at hstep
      · cases hstep
        exact h.onTimer
      · cases hstep

variable {as : List Action}

theorem kept_run (h : (machine host).run {} as = some s) : Kept s :=
  (machine host).run_invariant (fun _ _ _ hkept hstep => hkept.step hstep) kept_start h

/-! ## Finding a handle -/

theorem Kept.getSocketHandle_eq (h : Kept s) {x : Nat × SocketHandle} (hx : x ∈ s.sockets)
    (hin : x.1 ∈ s.handles) : getSocketHandle s x.1 = some x.2 := by
  have hfind : s.handles.find? (· = x.1) = some x.1 := by
    cases hfind : s.handles.find? (· = x.1) with
    | none =>
        have hno := List.find?_eq_none.mp hfind x.1 hin
        simp at hno
    | some id =>
        have hid : id = x.1 := by simpa using List.find?_some hfind
        rw [hid]
  rw [getSocketHandle, hfind]
  exact h.handleOf_eq hx

theorem getSocketHandle_of_not_mem {id : Nat} (hin : id ∉ s.handles) :
    getSocketHandle s id = none := by
  have hfind : s.handles.find? (· = id) = none := by
    rw [List.find?_eq_none]
    intro k hk hid
    rw [decide_eq_true_eq] at hid
    exact hin (hid ▸ hk)
  rw [getSocketHandle, hfind]
  rfl

/-- With no promise left, `handles` is what has not finished. -/
theorem Kept.handles_eq (h : Kept s) (hsettled : s.settled = []) :
    s.handles = (s.sockets.filter (fun x => !x.2.finished)).map Prod.fst := by
  have hsub : ((s.sockets.filter (fun x => !x.2.finished)).map Prod.fst).Sublist (ids s) :=
    List.filter_sublist.map _
  have hmem : ∀ id, id ∈ s.handles ↔
      id ∈ (s.sockets.filter (fun x => !x.2.finished)).map Prod.fst := by
    intro id
    simp only [List.mem_map, List.mem_filter, Bool.not_eq_true']
    constructor
    · intro hin
      obtain ⟨x, hx, rfl⟩ := List.mem_map.mp (h.order.subset hin)
      refine ⟨x, ⟨hx, ?_⟩, rfl⟩
      by_contra hfinished
      have hleft := h.dead x hx (by simpa using hfinished) hin
      rw [hsettled] at hleft
      cases hleft
    · rintro ⟨x, ⟨hx, hlive⟩, rfl⟩
      exact h.live x hx hlive
  have hperm := (List.perm_ext_iff_of_nodup (h.order.nodup h.nodup) (hsub.nodup h.nodup)).mpr hmem
  exact hperm.eq_of_pairwise
    (fun a b _ _ hab hba => absurd (Nat.lt_trans hab hba) (Nat.lt_irrefl a))
    (h.sorted.sublist h.order) (h.sorted.sublist hsub)

/-- **The handles in any run.** A socket is found by its `handle_id`, with
its own handle, until this has finished; it may be found after that only
as long as its `then` did not run. With no promise left, `handles` is
what has not finished, in the order it came. -/
theorem handles_run (h : (machine host).run {} as = some s) :
    (∀ x ∈ s.sockets, x.2.finished = false → getSocketHandle s x.1 = some x.2) ∧
      (∀ x ∈ s.sockets, x.2.finished = true → x.1 ∉ s.settled →
        getSocketHandle s x.1 = none) ∧
      (s.settled = [] →
        s.handles = (s.sockets.filter (fun x => !x.2.finished)).map Prod.fst) := by
  have hkept := kept_run h
  refine ⟨?_, ?_, hkept.handles_eq⟩
  · intro x hx hlive
    exact hkept.getSocketHandle_eq hx (hkept.live x hx hlive)
  · intro x hx hfinished hno
    exact getSocketHandle_of_not_mem fun hin => hno (hkept.dead x hx hfinished hin)

/-- Two connections, the first of which has closed. -/
def exampleClosed : List Action :=
  [.connection, .connection, .socket 1 .timeout, .socket 1 .close, .microtask]

theorem handles_run_closed :
    ∃ s, (machine Host.ascii).run {} exampleClosed = some s ∧
      getSocketHandle s 1 = none ∧ getSocketHandle s 2 = some {} ∧ s.handles = [2] := by
  obtain ⟨s, hs, first, hfirst, hsockets, hsettled⟩ :
      ∃ s, (machine Host.ascii).run {} exampleClosed = some s ∧
        ∃ first : SocketHandle, first.finished = true ∧ s.sockets = [(1, first), (2, {})] ∧
          s.settled = [] := ⟨_, rfl, _, rfl, rfl, rfl⟩
  obtain ⟨hlive, hdead, hempty⟩ := handles_run hs
  refine ⟨s, hs, ?_, ?_, ?_⟩
  · exact hdead (1, first) (by simp [hsockets]) hfirst (by simp [hsettled])
  · exact hlive (2, {}) (by simp [hsockets]) rfl
  · rw [hempty hsettled, hsockets]
    simp [hfirst]

/-! ## The end of a server -/

/-- A step that resolves a call leaves no handle. -/
theorem Kept.resolved_step (h : Kept s) {a : Action}
    (hstep : (machine host).step s a = some s') (hnew : s'.resolved ≠ s.resolved) :
    s'.handles = [] := by
  cases a with
  | otherServer =>
      cases hstep
      exact absurd rfl hnew
  | connection =>
      cases hstep
      exact absurd rfl hnew
  | socket id e =>
      simp only [machine, Handles.step] at hstep
      repeat' split at hstep
      all_goals cases hstep
      exact absurd rfl hnew
  | microtask =>
      simp only [machine, Handles.step] at hstep
      split at hstep
      · rename_i id rest hsettled
        cases hstep
        simp only [Handles.removeHandle] at hnew ⊢
        split
        · rename_i hempty
          exact List.length_eq_zero_iff.mp hempty
        · rename_i hne
          rw [if_neg hne] at hnew
          exact absurd rfl hnew
      · cases hstep
  | preFinalize =>
      cases hstep
      simp only [Handles.preFinalize] at hnew ⊢
      split
      · rename_i hpos
        rw [if_pos hpos] at hnew
        exact absurd rfl hnew
      · rename_i hno
        exact List.length_eq_zero_iff.mp (Nat.eq_zero_of_not_pos hno)
  | timer call =>
      simp only [machine, Handles.step] at hstep
      split at hstep
      · cases hstep
        obtain ⟨-, -, hhandles, -⟩ := finishHandles_spec h.toBase s.handles
        refine hhandles.trans ?_
        split
        · assumption
        · rfl
      · cases hstep

/-- **`preFinalize` in any run.** Its calls resolve in their order, each
once. A call resolves only where every handle has finished; while one
waits, some handle has not, or its `then` is still to run. The timer of a
call that waits resolves all calls, and finishes the handles, whose
sockets it leaves as they are. -/
theorem preFinalize_run (h : (machine host).run {} as = some s) :
    s.resolved ++ s.waiting = List.range s.calls ∧
      (∀ a s', (machine host).step s a = some s' → s'.resolved ≠ s.resolved →
        s'.handles = [] ∧ ∀ x ∈ s'.sockets, x.2.finished = true) ∧
      (s.waiting ≠ [] → s.settled ≠ [] ∨ ∃ x ∈ s.sockets, x.2.finished = false) ∧
      ∀ call ∈ s.waiting, ∃ s', (machine host).step s (.timer call) = some s' ∧
        s'.resolved = List.range s.calls ∧ s'.handles = [] ∧
        s'.sockets = s.sockets.map (fun x => (x.1, x.2.finish)) := by
  have hkept := kept_run h
  refine ⟨hkept.calls, ?_, ?_, ?_⟩
  · intro a s' hstep hnew
    have hempty := hkept.resolved_step hstep hnew
    exact ⟨hempty, (hkept.step hstep).finished_of_handles hempty⟩
  · intro hwaits
    by_contra hno
    rw [not_or, not_not] at hno
    obtain ⟨hsettled, hfinished⟩ := hno
    refine hkept.waits hwaits ?_
    rw [hkept.handles_eq hsettled, List.map_eq_nil_iff, List.filter_eq_nil_iff]
    intro x hx hlive
    exact hfinished ⟨x, hx, by simpa using hlive⟩
  · intro call hcall
    have hstep : (machine host).step s (.timer call) = some (onTimer s) := if_pos hcall
    have hcalls := hkept.onTimer.calls
    rw [show (onTimer s).waiting = [] from rfl, List.append_nil] at hcalls
    have hsame : (onTimer s).calls = s.calls :=
      (finishHandles_spec hkept.toBase s.handles).2.2.2.1
    exact ⟨onTimer s, hstep, by rw [hcalls, hsame], hkept.onTimer_handles, hkept.onTimer_sockets⟩

/-- Two calls that wait for a connection. -/
def exampleWaiting : List Action := [.connection, .preFinalize, .otherServer, .preFinalize]

theorem preFinalize_run_waiting :
    ∃ s, (machine Host.ascii).run {} exampleWaiting = some s ∧
      s.resolved = [] ∧ s.waiting = [0, 1] ∧ (∃ x ∈ s.sockets, x.2.finished = false) ∧
      ∃ s', (machine Host.ascii).step s (.timer 1) = some s' ∧
        s'.resolved = [0, 1] ∧ s'.handles = [] := by
  obtain ⟨s, hs, hresolved, hsettled, hcalls⟩ :
      ∃ s, (machine Host.ascii).run {} exampleWaiting = some s ∧ s.resolved = [] ∧
        s.settled = [] ∧ s.calls = 2 := ⟨_, rfl, rfl, rfl, rfl⟩
  obtain ⟨horder, -, hopen, htimer⟩ := preFinalize_run hs
  have hwaiting : s.waiting = [0, 1] := by rw [hresolved, hcalls] at horder; exact horder
  obtain ⟨s', hstep, hall, hnone, -⟩ := htimer 1 (by simp [hwaiting])
  refine ⟨s, hs, hresolved, hwaiting, ?_, s', hstep, ?_, hnone⟩
  · exact (hopen (by simp [hwaiting])).resolve_left (not_not_intro hsettled)
  · rw [hall, hcalls]
    rfl

end ProxyBroker.Server.Handles
