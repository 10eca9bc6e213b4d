/-
ProxyBroker.Proxy.StoreFailureTheorems — what a `store` call that rejects
leaves in the database.

`store` raises `validation_id` with its first save and has no transaction
around the saves that follow. A call that is rejected before it has saved
anything leaves the database alone (`Untouched`); from the first save on
the row carries the next `validation_id` (`Raised`), so that the address
joins other states than before, whatever fails then.

`unchanged_iff`: a call that has rejected has changed neither the row nor
the states it joins if and only if the operation that was rejected is the
first save of the address, or the lookup in front of it.
-/
import ProxyBroker.Proxy.StoreAloneTheorems

namespace ProxyBroker.Proxy.Storage.Store

open Lib Server

/-- The row of the address and the states it joins are the same. -/
def Unchanged (s t : Store) (ip : Text) (port : Nat) : Prop :=
  t.db.findAddr ip port = s.db.findAddr ip port ∧
    ∀ a, s.db.findAddr ip port = some a → t.db.joined a = s.db.joined a

/-- The stages in which a rejected operation finds nothing saved, and the
save of the location, whose rejection is caught. -/
def nothingSaved : Stage → Bool
  | .finding | .saving _ | .savingLoc _ _ => true
  | _ => false

/-- The step does not reject an operation behind the first save. -/
def Early (s : Store) (a : StoreAction) : Prop :=
  a.rejects = true → ∀ i ∈ a.index, ∀ c ∈ s.calls[i]?, nothingSaved c.stage = true

instance (s : Store) (a : StoreAction) : Decidable (Early s a) :=
  inferInstanceAs (Decidable (_ → _))

/-- The row carries the next `validation_id`. -/
def Raised (db0 : Database) (ip : Text) (port : Nat) (db : Database) : Prop :=
  ∃ a b, db0.findAddr ip port = some a ∧ db.findAddr ip port = some b ∧
    b.validationId = a.validationId + 1

/-- The call is under way or has returned, or has changed nothing. -/
inductive Sound (db0 : Database) (ip : Text) (port : Nat) (s : Store) : Prop where
  | running (c : StoreCall) (hcalls : s.calls = [c]) (hip : c.data.ip = ip)
      (hport : c.data.port = port) (hwithin : Within db0 c s.db)
  | untouched (c : StoreCall) (hcalls : s.calls = [c]) (hstage : c.stage = .failed [])
      (hdb : s.db = db0)

/-- The call has rejected and has changed the row. -/
structure Broken (db0 : Database) (ip : Text) (port : Nat) (s : Store) : Prop where
  failed : ∃ c todo, s.calls = [c] ∧ c.stage = .failed todo
  raised : Raised db0 ip port s.db

section

variable {db0 db : Database} {ip : Text} {port : Nat} {c : StoreCall} {a0 a : IpAddr}
variable {stage : Stage} {state : Option IpAddrState} {written : List IpAddrState}

theorem Raised.congr {db' : Database} (h : Raised db0 ip port db) (haddrs : db'.addrs = db.addrs) :
    Raised db0 ip port db' := by
  obtain ⟨a, b, ha, hb, hv⟩ := h
  exact ⟨a, b, ha, (Database.findAddr_congr haddrs).trans hb, hv⟩

theorem Entered.raised (hstored : db0.findAddr c.data.ip c.data.port = some a0)
    (h : Entered db0 c.data c.now a db written) :
    Raised db0 c.data.ip c.data.port db := by
  refine ⟨a0, a, hstored, h.found, ?_⟩
  rw [h.validationId]
  simp [entered, hstored]

/-- What a rejected operation finds. -/
theorem Within.rejected (hstored : db0.findAddr c.data.ip c.data.port = some a0)
    (h : Within db0 c db) {db' : Database} (hnext : Next db c true db' stage state) :
    db' = db ∧ (nothingSaved c.stage = true ∧ stage = .failed [] ∧ db = db0 ∨
      (∃ addr loc, c.stage = .savingLoc addr loc) ∨
      nothingSaved c.stage = false ∧ (∃ todo, stage = .failed todo) ∧
        Raised db0 c.data.ip c.data.port db) := by
  unfold Within at h
  cases hnext with
  | rejectedFind hstage =>
      rw [hstage] at h
      exact ⟨rfl, .inl ⟨by rw [hstage]; rfl, rfl, h⟩⟩
  | rejectedSave addr hstage =>
      rw [hstage] at h
      exact ⟨rfl, .inl ⟨by rw [hstage]; rfl, rfl, h.1⟩⟩
  | rejectedFindLoc addr hstage =>
      rw [hstage] at h
      exact ⟨rfl, .inr (.inr ⟨by rw [hstage]; rfl, ⟨_, rfl⟩, h.raised hstored⟩)⟩
  | rejectedLoc addr loc results hstage hresults => exact ⟨rfl, .inr (.inl ⟨addr, loc, hstage⟩)⟩
  | rejectedState addr enabled todo k st hstage hk =>
      rw [hstage] at h
      obtain ⟨a, results, written, -, hentered, -⟩ := h
      exact ⟨rfl, .inr (.inr ⟨by rw [hstage]; rfl, ⟨_, rfl⟩, hentered.raised hstored⟩)⟩
  | rejectedLate todo k st hstage hk =>
      rw [hstage] at h
      exact absurd h id
  | rejectedCount addr hstage =>
      rw [hstage] at h
      obtain ⟨a, results, written, -, hentered, -⟩ := h
      exact ⟨rfl, .inr (.inr ⟨by rw [hstage]; rfl, ⟨_, rfl⟩, hentered.raised hstored⟩)⟩

theorem Raised.ne (h : Raised db0 ip port db) : db.findAddr ip port ≠ db0.findAddr ip port := by
  obtain ⟨a, b, ha, hb, hv⟩ := h
  rw [ha, hb]
  intro heq
  cases heq
  omega

/-! ## The call -/

variable {options : ValidatorOptions} {s s' t : Store} {act : StoreAction}
variable {as : List StoreAction}

theorem Sound.not_broken (h : Sound db0 ip port s) : ¬ Broken db0 ip port s := by
  rintro ⟨⟨d, todo, hd, hfailed⟩, hraised⟩
  cases h with
  | running c hcalls hip hport hwithin =>
      rw [hcalls] at hd
      cases hd
      rw [Within, hfailed] at hwithin
      exact hwithin
  | untouched c hcalls hstage hdb => exact hraised.ne (by rw [hdb])

/-- The only call is moved. -/
theorem next_calls {i : Nat} (hcalls : s.calls = [c]) {d : StoreCall} (hd : s.calls[i]? = some d) :
    d = c ∧ ∀ db stage state, (s.next i d db stage state).calls = [{ c with stage := stage }] := by
  rw [hcalls] at hd
  have hi : i = 0 := by
    have := (List.getElem?_eq_some_iff.mp hd).1
    simp at this
    omega
  subst hi
  cases hd
  exact ⟨rfl, fun db stage state => by simp [Store.next, hcalls]⟩

/-- **Step lemma**: a step is early and leaves the call sound, or it is
not and breaks it. -/
theorem Sound.step (hwf : db0.Wf) (hstored : db0.findAddr ip port = some a0)
    (h : Sound db0 ip port s) (ha : act.calls = false)
    (hstep : Store.step options s act = some s') :
    Early s act ∧ Sound db0 ip port s' ∨ ¬ Early s act ∧ Broken db0 ip port s' := by
  rcases step_cases ha hstep with ⟨ms, rfl, rfl⟩ | ⟨i, d, db, stage, state, hi, hd, hnext, rfl⟩
  · refine .inl ⟨by simp [Early, StoreAction.rejects], ?_⟩
    cases h with
    | running c hcalls hip hport hwithin => exact .running c hcalls hip hport hwithin
    | untouched c hcalls hstage hdb => exact .untouched c hcalls hstage hdb
  · have hearly : Early s act ↔ (act.rejects = true → nothingSaved d.stage = true) := by
      simp [Early, hi, hd]
    rw [hearly]
    cases h with
    | running c hcalls hip hport hwithin =>
        obtain ⟨rfl, hmoved⟩ := next_calls hcalls hd
        have hcalls' := hmoved db stage state
        subst hip hport
        cases hrejects : act.rejects with
        | false =>
            rw [hrejects] at hnext
            exact .inl ⟨by simp, .running _ hcalls' rfl rfl (hwithin.next hwf hnext (by simp))⟩
        | true =>
            rw [hrejects] at hnext
            obtain ⟨hdb, hcases⟩ := hwithin.rejected hstored hnext
            rcases hcases with ⟨hsaved, rfl, hdb0⟩ | hloc | ⟨hsaved, ⟨todo, rfl⟩, hraised⟩
            · exact .inl ⟨fun _ => hsaved, .untouched _ hcalls' rfl (hdb.trans hdb0)⟩
            · refine .inl ⟨?_, .running _ hcalls' rfl rfl (hwithin.next hwf hnext fun _ => hloc)⟩
              obtain ⟨addr, loc, hstage⟩ := hloc
              simp [hstage, nothingSaved]
            · refine .inr ⟨by simp [hsaved], ⟨_, todo, hcalls', rfl⟩, ?_⟩
              exact hraised.congr (by rw [← hdb]; rfl)
    | untouched c hcalls hstage hdb =>
        obtain ⟨rfl, -⟩ := next_calls hcalls hd
        have hnone : ∀ b, ¬ Next s.db d b db stage state := by
          intro b hb
          cases hb <;> simp_all
        exact absurd hnext (hnone _)

theorem Broken.step (h : Broken db0 ip port s) (ha : act.calls = false)
    (hstep : Store.step options s act = some s') : Broken db0 ip port s' := by
  obtain ⟨⟨c, todo, hcalls, hstage⟩, hraised⟩ := h
  rcases step_cases ha hstep with ⟨ms, rfl, rfl⟩ | ⟨i, d, db, stage, state, hi, hd, hnext, rfl⟩
  · exact ⟨⟨c, todo, hcalls, hstage⟩, hraised⟩
  · obtain ⟨rfl, hmoved⟩ := next_calls hcalls hd
    have hcalls' := hmoved db stage state
    generalize act.rejects = b at hnext
    cases hnext with
    | storedLate rest k st h hk => exact ⟨⟨_, _, hcalls', rfl⟩, hraised.congr rfl⟩
    | rejectedLate rest k st h hk => exact ⟨⟨_, _, hcalls', rfl⟩, hraised⟩
    | _ => simp_all

theorem sound_or_broken_step (hwf : db0.Wf) (hstored : db0.findAddr ip port = some a0) :
    ∀ u act u', Sound db0 ip port u ∨ Broken db0 ip port u → act.calls = false →
      (machine options).step u act = some u' →
      Sound db0 ip port u' ∨ Broken db0 ip port u' := by
  intro u act u' hu ha hstep
  rcases hu with hu | hu
  · rcases hu.step hwf hstored ha hstep with ⟨-, hu'⟩ | ⟨-, hu'⟩
    · exact .inl hu'
    · exact .inr hu'
  · exact .inr (hu.step ha hstep)

/-- A call is sound at the end exactly if all its steps were early. -/
theorem sound_iff_along (hwf : db0.Wf) (hstored : db0.findAddr ip port = some a0)
    (hs : Sound db0 ip port s) (has : ∀ act ∈ as, act.calls = false)
    (h : (machine options).run s as = some t) :
    Sound db0 ip port t ↔ (machine options).Along Early s as := by
  refine (machine options).end_iff_along (sound_or_broken_step hwf hstored) ?_ ?_ (.inl hs) hs
    has h
  · intro u act u' _ ha hu hstep
    rcases hu.step hwf hstored ha hstep with ⟨hearly, hu'⟩ | ⟨hlate, hu'⟩
    · exact iff_of_true hu' hearly
    · exact iff_of_false (fun hsound => hsound.not_broken hu') hlate
  · intro u act u' hu ha hstep hu'
    rcases hu with hu | hu
    · exact hu
    · exact absurd (hu.step ha hstep) hu'.not_broken

/-- A call that has rejected is sound if it has changed nothing. -/
theorem sound_iff_unchanged (hs : Sound s.db ip port t ∨ Broken s.db ip port t)
    (hfailed : ∃ d todo, t.calls = [d] ∧ d.stage = .failed todo) :
    Sound s.db ip port t ↔ Unchanged s t ip port := by
  rcases hs with hs | hs
  · refine iff_of_true hs ?_
    cases hs with
    | running c hcalls hip hport hwithin =>
        obtain ⟨d, todo, hd, hstage⟩ := hfailed
        rw [hcalls] at hd
        cases hd
        rw [Within, hstage] at hwithin
        exact absurd hwithin id
    | untouched c hcalls hstage hdb => exact ⟨by rw [hdb], fun a _ => by rw [hdb]⟩
  · exact iff_of_false (fun hsound => hsound.not_broken hs) (fun hun => hs.raised.ne hun.1)

/-- **Failed calls**: in every run of a `store` call for a stored address
that ends with the call rejected, the row and the states it joins are
unchanged if and only if nothing was rejected behind the first save. -/
theorem unchanged_iff (hwf : s.db.Wf) (hcalls : s.calls = [c]) (hstage : c.stage = .finding)
    (hstored : s.db.findAddr c.data.ip c.data.port = some a0)
    (has : ∀ act ∈ as, act.calls = false) (h : (machine options).run s as = some t)
    (hfailed : ∃ d todo, t.calls = [d] ∧ d.stage = .failed todo) :
    Unchanged s t c.data.ip c.data.port ↔ (machine options).Along Early s as := by
  have hsound : Sound s.db c.data.ip c.data.port s :=
    .running c hcalls rfl rfl (by rw [Within, hstage])
  have hend := (machine options).run_invariant_on (sound_or_broken_step hwf hstored) (.inl hsound)
    has h
  rw [← sound_iff_unchanged hend hfailed]
  exact sound_iff_along hwf hstored hsound has h

end

/-- A call for a known address. -/
def oneCall : Store :=
  { db := knownDb, clock := 5, calls := [⟨knownData working, 5, .finding⟩] }

/-- The first save is rejected. -/
theorem unchanged_firstRejected :
    Unchanged oneCall (((machine {}).run oneCall [.go 0, .reject 0]).getD {}) ['x'] 80 := by
  have hrun : (machine {}).run oneCall [.go 0, .reject 0] =
      some (((machine {}).run oneCall [.go 0, .reject 0]).getD {}) := by decide
  have hcalls : oneCall.calls = [⟨knownData working, 5, .finding⟩] := rfl
  have hstored : oneCall.db.findAddr ['x'] 80 = some knownAddr := by decide
  exact (unchanged_iff knownDb_wf hcalls rfl hstored (by decide) hrun ⟨_, _, rfl, rfl⟩).mpr
    (by decide)

/-- The save of the state is rejected. -/
def stateRejected : List StoreAction := [.go 0, .go 0, .go 0, .rejectState 0 0]

/-- The address carries `validation_id` 2 and joins no state. -/
theorem not_unchanged_stateRejected :
    (machine {}).run oneCall stateRejected =
        some (((machine {}).run oneCall stateRejected).getD {}) ∧
      (((machine {}).run oneCall stateRejected).getD {}).calls.map (·.stage) = [.failed []] ∧
      (((machine {}).run oneCall stateRejected).getD {}).db.selectable = [] ∧
      oneCall.db.selectable ≠ [] ∧
      ¬ Unchanged oneCall (((machine {}).run oneCall stateRejected).getD {}) ['x'] 80 := by
  refine ⟨by decide, by decide, by decide, by decide, ?_⟩
  intro hun
  have hversion : ((((machine {}).run oneCall stateRejected).getD {}).db.findAddr ['x'] 80).map
      (·.validationId) = some 2 := by decide
  rw [hun.1] at hversion
  exact absurd hversion (by decide)

end ProxyBroker.Proxy.Storage.Store
