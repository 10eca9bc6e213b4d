/-
ProxyBroker.Proxy.StorageTheorems — what the address table keeps.

`Wf`: generated ids are positive, below the next one and unique, and so
is the pair of ip and port. `Knows`: an entity is new, or there is a row
with its id and its ip and port. A save of such an entity keeps both
(`saveAddr_saved`), and a lookup then finds the entity.
-/
import Mathlib.Data.List.Nodup
import ProxyBroker.Proxy.Store

namespace ProxyBroker.Proxy.Storage

open Server

def IpAddr.key (a : IpAddr) : Text × Nat := (a.ip, a.port)

namespace Database

structure Wf (db : Database) : Prop where
  next_pos : 0 < db.nextId
  id_pos : ∀ a ∈ db.addrs, 0 < a.id
  id_lt : ∀ a ∈ db.addrs, a.id < db.nextId
  id_nodup : (db.addrs.map (·.id)).Nodup
  key_nodup : (db.addrs.map IpAddr.key).Nodup

/-- The entity is new, or is one of a row. -/
def Knows (db : Database) (a : IpAddr) : Prop :=
  a.id ≠ 0 → ∃ b ∈ db.addrs, b.id = a.id ∧ b.key = a.key

variable {db db' : Database} {a a' b : IpAddr} {ip : Text} {port : Nat}

theorem wf_empty : Wf {} :=
  ⟨by decide, by simp, by simp, by simp, by simp⟩

/-! ## Lookups -/

theorem findAddr_eq_some_iff (h : db.Wf) :
    db.findAddr ip port = some a ↔ a ∈ db.addrs ∧ a.key = (ip, port) := by
  constructor
  · intro hfind
    refine ⟨List.mem_of_find?_eq_some hfind, ?_⟩
    simpa [IpAddr.key] using List.find?_some hfind
  · rintro ⟨hmem, hkey⟩
    cases hfind : db.findAddr ip port with
    | none =>
        have := List.find?_eq_none.mp hfind a hmem
        simp [IpAddr.key] at hkey
        simp [hkey] at this
    | some c =>
        have hc : c.key = (ip, port) := by simpa [IpAddr.key] using List.find?_some hfind
        exact congrArg some (List.inj_on_of_nodup_map h.key_nodup
          (List.mem_of_find?_eq_some hfind) hmem (hc.trans hkey.symm))

theorem findAddr_eq_none_iff : db.findAddr ip port = none ↔ ∀ a ∈ db.addrs, a.key ≠ (ip, port) := by
  simp [findAddr, IpAddr.key]

theorem findAddr_id_pos (h : db.Wf) (hfind : db.findAddr ip port = some a) : a.id ≠ 0 :=
  Nat.ne_of_gt (h.id_pos a ((findAddr_eq_some_iff h).mp hfind).1)

theorem Knows.of_findAddr (h : db.Wf) (hfind : db.findAddr ip port = some a)
    (hid : b.id = a.id) (hkey : b.key = (ip, port)) : db.Knows b := by
  obtain ⟨hmem, ha⟩ := (findAddr_eq_some_iff h).mp hfind
  exact fun _ => ⟨a, hmem, hid.symm, ha.trans hkey.symm⟩

/-- Only the rows of the address table and the next id matter. -/
theorem Wf.congr (h : db.Wf) (haddrs : db'.addrs = db.addrs) (hnext : db'.nextId = db.nextId) :
    db'.Wf :=
  ⟨hnext ▸ h.next_pos, haddrs ▸ h.id_pos, haddrs ▸ hnext ▸ h.id_lt, haddrs ▸ h.id_nodup,
    haddrs ▸ h.key_nodup⟩

theorem Knows.congr (h : db.Knows a) (haddrs : db'.addrs = db.addrs) : db'.Knows a := by
  rw [Knows, haddrs]
  exact h

theorem findAddr_congr (haddrs : db'.addrs = db.addrs) :
    db'.findAddr ip port = db.findAddr ip port := by
  rw [findAddr, haddrs, findAddr]

/-! ## Saves -/

/-- What a save that is not rejected does: `a'` is the entity behind it. -/
structure Saved (db : Database) (a : IpAddr) (db' : Database) (a' : IpAddr) : Prop where
  wf : db'.Wf
  entity : a' = { a with id := a'.id }
  id_ne : a'.id ≠ 0
  id_eq : a.id ≠ 0 → a'.id = a.id
  found : db'.findAddr a.ip a.port = some a'
  fresh : a.id = 0 → db.findAddr a.ip a.port = none ∧ a'.id = db.nextId
  states_eq : db'.states = db.states
  next_le : db.nextId ≤ db'.nextId
  id_lt : a'.id < db'.nextId
  knows : ∀ b, db.Knows b → db'.Knows b

theorem Saved.key_eq (h : Saved db a db' a') : a'.key = a.key := by
  rw [h.entity, IpAddr.key, IpAddr.key]

theorem Saved.found_of_key (h : Saved db a db' a') (hkey : a.key = (ip, port)) :
    db'.findAddr ip port = some a' := by
  simp only [IpAddr.key, Prod.mk.injEq] at hkey
  rw [← hkey.1, ← hkey.2]
  exact h.found

theorem Saved.new_of_key (h : Saved db a db' a') (hkey : a.key = (ip, port)) (hid : a.id = 0) :
    db.findAddr ip port = none := by
  simp only [IpAddr.key, Prod.mk.injEq] at hkey
  rw [← hkey.1, ← hkey.2]
  exact (h.fresh hid).1

theorem saveAddr_insert (h : db.Wf) (hid : a.id = 0) (hnew : db.findAddr a.ip a.port = none) :
    Saved db a { db with addrs := db.addrs ++ [{ a with id := db.nextId }],
                         nextId := db.nextId + 1 } { a with id := db.nextId } := by
  have hwf : Wf { db with addrs := db.addrs ++ [{ a with id := db.nextId }],
                          nextId := db.nextId + 1 } := by
    refine ⟨Nat.succ_pos _, ?_, ?_, ?_, ?_⟩
    · intro b hb
      rcases List.mem_append.mp hb with hb | hb
      · exact h.id_pos b hb
      · rw [List.mem_singleton.mp hb]
        exact h.next_pos
    · intro b hb
      rcases List.mem_append.mp hb with hb | hb
      · exact Nat.lt_succ_of_lt (h.id_lt b hb)
      · rw [List.mem_singleton.mp hb]
        exact Nat.lt_succ_self _
    · rw [List.map_append, List.nodup_append]
      refine ⟨h.id_nodup, List.nodup_singleton _, ?_⟩
      intro n hn m hm
      obtain ⟨b, hb, rfl⟩ := List.mem_map.mp hn
      simp only [List.map_cons, List.map_nil, List.mem_singleton] at hm
      have := h.id_lt b hb
      omega
    · rw [List.map_append, List.nodup_append]
      refine ⟨h.key_nodup, List.nodup_singleton _, ?_⟩
      intro n hn m hm
      obtain ⟨b, hb, rfl⟩ := List.mem_map.mp hn
      simp only [List.map_cons, List.map_nil, List.mem_singleton] at hm
      subst hm
      exact findAddr_eq_none_iff.mp hnew b hb
  refine ⟨hwf, rfl, Nat.ne_of_gt h.next_pos, absurd hid, ?_, fun _ => ⟨hnew, rfl⟩, rfl,
    Nat.le_succ _, Nat.lt_succ_self _, ?_⟩
  · exact (findAddr_eq_some_iff hwf).mpr ⟨by simp, rfl⟩
  · intro b hb hne
    obtain ⟨c, hc, hcb⟩ := hb hne
    exact ⟨c, List.mem_append_left _ hc, hcb⟩

/-- The rows behind an update. -/
def put (db : Database) (a : IpAddr) : Database :=
  { db with addrs := db.addrs.map (fun b => if b.id = a.id then a else b) }

theorem put_map_id : (db.put a).addrs.map (·.id) = db.addrs.map (·.id) := by
  simp only [put, List.map_map]
  refine List.map_congr_left ?_
  intro b hb
  by_cases hba : b.id = a.id <;> simp [hba]

theorem put_map_key (h : db.Wf) (hid : a.id ≠ 0) (hknows : db.Knows a) :
    (db.put a).addrs.map IpAddr.key = db.addrs.map IpAddr.key := by
  obtain ⟨c, hc, hca, hkey⟩ := hknows hid
  simp only [put, List.map_map]
  refine List.map_congr_left ?_
  intro b hb
  by_cases hba : b.id = a.id
  · have hbc : b = c := List.inj_on_of_nodup_map h.id_nodup hb hc (hba.trans hca.symm)
    subst hbc
    simp [hba, hkey]
  · simp [hba]

theorem saveAddr_update (h : db.Wf) (hid : a.id ≠ 0) (hknows : db.Knows a) :
    Saved db a (db.put a) a := by
  obtain ⟨c, hc, hca, hkey⟩ := hknows hid
  have hmem : a ∈ (db.put a).addrs := List.mem_map.mpr ⟨c, hc, by simp [hca]⟩
  have hof : ∀ b ∈ (db.put a).addrs, ∃ d ∈ db.addrs, d.id = b.id ∧ d.key = b.key := by
    intro b hb
    obtain ⟨d, hd, rfl⟩ := List.mem_map.mp hb
    by_cases hda : d.id = a.id
    · exact ⟨c, hc, by simp [hda, hca], by simp [hda, hkey]⟩
    · exact ⟨d, hd, by simp [hda]⟩
  have hwf : (db.put a).Wf := by
    refine ⟨h.next_pos, ?_, ?_, ?_, ?_⟩
    · intro b hb
      obtain ⟨d, hd, hdb, -⟩ := hof b hb
      exact hdb ▸ h.id_pos d hd
    · intro b hb
      obtain ⟨d, hd, hdb, -⟩ := hof b hb
      exact hdb ▸ h.id_lt d hd
    · rw [put_map_id]
      exact h.id_nodup
    · rw [put_map_key h hid hknows]
      exact h.key_nodup
  refine ⟨hwf, rfl, hid, fun _ => rfl, (findAddr_eq_some_iff hwf).mpr ⟨hmem, rfl⟩,
    fun h0 => absurd h0 hid, rfl, Nat.le_refl _, hca ▸ h.id_lt c hc, ?_⟩
  intro b hb hne
  obtain ⟨d, hd, hdb, hdkey⟩ := hb hne
  by_cases hda : d.id = a.id
  · have hdc : d = c := List.inj_on_of_nodup_map h.id_nodup hd hc (hda.trans hca.symm)
    exact ⟨a, hmem, hda.symm.trans hdb, by rw [← hdkey, hdc, hkey]⟩
  · exact ⟨d, List.mem_map.mpr ⟨d, hd, by simp [hda]⟩, hdb, hdkey⟩

/-- **Save lemma.** -/
theorem saveAddr_saved (h : db.Wf) (hknows : db.Knows a) (hsave : db.saveAddr a = some (db', a')) :
    Saved db a db' a' := by
  unfold saveAddr at hsave
  split at hsave
  · rename_i hid
    split at hsave
    · cases hsave
    · rename_i hnew
      cases hsave
      exact saveAddr_insert h hid (by simpa using hnew)
  · cases hsave
    exact saveAddr_update h ‹_› hknows

/-- **Rejected saves**: the unique index knows another row. -/
theorem saveAddr_eq_none_iff :
    db.saveAddr a = none ↔ a.id = 0 ∧ (db.findAddr a.ip a.port).isSome = true := by
  unfold saveAddr
  split
  · split <;> simp_all
  · simp_all

theorem isSome_of_saveAddr_none (hkey : a.key = (ip, port)) (h : db.saveAddr a = none) :
    (db.findAddr ip port).isSome = true := by
  simp only [IpAddr.key, Prod.mk.injEq] at hkey
  rw [← hkey.1, ← hkey.2]
  exact (saveAddr_eq_none_iff.mp h).2

end Database

end ProxyBroker.Proxy.Storage
