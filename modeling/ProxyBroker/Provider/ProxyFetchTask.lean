/-
ProxyBroker.Provider.ProxyFetchTask — fetching the lists of a provider
(`ProxyFetchTask.exec`).

The task asks the registry for the variants of a provider, looks every
requested one up again with `get`, fetches with what it finds there and
keeps the entries with an address and a port. Two things go wrong:
`get` answers the first provider with the properties of the variant, which
may be another variant with more of them, and the bound of the ports is
65536.

* `foldlM_fetchVariant` — the loop, from any point of the registry;
* `lookups_eq_iff` — the workers are the requested variants exactly if
  none of these is `Shadowed`;
* `selectsAndFilters_iff` — when the task does what it is for.

A variant without a type gets one from `get`, in the registry: the loop
has references into it. What the task calls is in `Env`: `fetch` answers
the k-th call of a worker. Ports are numbers, `none` standing for those
that are not finite. Left out: a provider that throws or rejects, and the
conversion of `variants` where they come as one text.
-/
import Mathlib.Data.Rat.Defs
import ProxyBroker.Lib.Decimal
import ProxyBroker.Provider.ProviderManager

namespace ProxyBroker.Provider

open Lib

/-! ## The task -/

/-- `IProxyData`, as a provider gives it. -/
structure FetchedEntry where
  ip : Option Text
  port : Option Rat
  deriving DecidableEq, Repr

/-- What the task calls. -/
structure Env (V : Type) where
  isEqual : V → V → Bool
  localeEq : Text → Text → Bool
  /-- `DomainUtils.IP_REGEX.test` -/
  ipRegex : Text → Bool
  /-- The answer to the k-th `worker.fetch()`, of a worker for a variant. -/
  fetch : Nat → Variant V → List (Option FetchedEntry)

structure ProxyFetchTask where
  provider : Text
  variants : List Text := [allTypes]
  validate : Bool := false
  store : Bool := true

/-- `all || this.variants.indexOf(v.type) > -1` -/
def ProxyFetchTask.requests {V : Type} (task : ProxyFetchTask) (v : Variant V) : Bool :=
  task.variants.contains allTypes ||
    match v.props.lookup typeKey with
    | some (.str type) => task.variants.contains type
    | _ => false

variable {V : Type}

/-- The filter of the loop. -/
def Env.keeps (env : Env V) : Option FetchedEntry → Bool
  | some ⟨some ip, some port⟩ =>
      ip ≠ [] && port ≠ 0 && env.ipRegex ip && 0 < port && port ≤ 65536
  | _ => false

/-- The task within its loop: the registry, the variants the workers were
created for, and `this.proxies`. -/
structure Run (V : Type) where
  providers : List (Variant V)
  workers : List (Variant V)
  proxies : List (Option FetchedEntry)

/-- One turn of the loop, for a reference into the registry. -/
def fetchVariant (env : Env V) (task : ProxyFetchTask) (run : Run V) (i : Nat) :
    Option (Run V) := do
  let v ← run.providers[i]?
  if task.requests v then
    let providers := run.providers.set i (fillType v)
    let variant ← find env.isEqual providers (fillType v)
    let p := env.fetch run.workers.length variant
    some
      { providers := providers
        workers := run.workers ++ [variant]
        proxies := run.proxies ++ p.filter env.keeps }
  else some run

/-- What the task has done: the run, and what it passed to validation. -/
structure Outcome (V : Type) where
  run : Run V
  validation : Option (List (Option FetchedEntry) × Bool)

/-- `exec`; `none` is a task that throws. -/
def exec (env : Env V) (task : ProxyFetchTask) (providers : List (Variant V)) :
    Option (Outcome V) := do
  let variants := findRefs env.localeEq providers (query task.provider none)
  let run ← variants.foldlM (fetchVariant env task) ⟨providers, [], []⟩
  some ⟨run, if task.validate then some (run.proxies, task.store) else none⟩

/-! ## What it is for -/

/-- One to three digits, up to 255. -/
def isOctet (s : Text) : Bool :=
  s ≠ [] && s.length ≤ 3 && s.all Char.isDigit && Decimal.value s ≤ 255

/-- Four octets with dots between them. -/
def isDottedQuad (s : Text) : Bool :=
  (s.splitOn '.').length = 4 && (s.splitOn '.').all isOctet

/-- A port of a TCP connection. -/
def isTcpPort (port : Rat) : Bool := port.den = 1 && 1 ≤ port && port ≤ 65535

/-- An entry with a valid address and a usable port. -/
def isUsable : Option FetchedEntry → Bool
  | some ⟨some ip, some port⟩ => isDottedQuad ip && isTcpPort port
  | _ => false

/-- A variant of the provider that was asked for. -/
def ProxyFetchTask.selects (env : Env V) (task : ProxyFetchTask) (v : Variant V) : Bool :=
  compares env.localeEq (query task.provider none) v && task.requests v

/-- The requested variants, each with a type. -/
def requested (env : Env V) (task : ProxyFetchTask) (providers : List (Variant V)) :
    List (Variant V) :=
  (providers.filter (task.selects env)).map fillType

theorem requested_eq (env : Env V) (task : ProxyFetchTask) (providers : List (Variant V)) :
    requested env task providers =
      ((findAll env.localeEq providers (query task.provider none)).filter task.requests).map
        fillType := by
  rw [requested, findAll, List.filter_filter]
  congr 2
  funext v
  exact Bool.and_comm _ _

/-- The entries fetched with the workers `vs`, from the n-th call on. -/
def fetchedFrom (env : Env V) (n : Nat) (vs : List (Variant V)) : List (Option FetchedEntry) :=
  (vs.zipIdx n).flatMap fun p => env.fetch p.2 p.1

/-- The task fetches with exactly the requested variants, in their order,
returns the usable entries of what was fetched and passes no other on to
validation. -/
structure SelectsAndFilters (env : Env V) (task : ProxyFetchTask) (providers : List (Variant V))
    (outcome : Outcome V) : Prop where
  workers : outcome.run.workers = requested env task providers
  proxies : outcome.run.proxies =
    (fetchedFrom env 0 (requested env task providers)).filter isUsable
  validation : ∀ p, outcome.validation = some p → ∀ x ∈ p.1, isUsable x = true

/-! ## The loop -/

/-- What the loop makes of a provider in the registry. -/
def settle (env : Env V) (task : ProxyFetchTask) (v : Variant V) : Variant V :=
  if task.selects env v then fillType v else v

/-- What `get` answers for the selected ones of `rest`, behind a registry
`before` that is settled. -/
def lookups (env : Env V) (task : ProxyFetchTask) (before : List (Variant V)) :
    List (Variant V) → List (Variant V)
  | [] => []
  | v :: rest =>
      let tail := lookups env task (before ++ [settle env task v]) rest
      if task.selects env v then
        (before.find? (isMatch env.isEqual · (fillType v))).getD (fillType v) :: tail
      else tail

@[simp] theorem fetchedFrom_nil (env : Env V) (n : Nat) : fetchedFrom env n [] = [] := rfl

@[simp] theorem fetchedFrom_cons (env : Env V) (n : Nat) (v : Variant V) (vs : List (Variant V)) :
    fetchedFrom env n (v :: vs) = env.fetch n v ++ fetchedFrom env (n + 1) vs := by
  simp [fetchedFrom]

section Loop

variable {env : Env V} {task : ProxyFetchTask}

theorem agree_self (hrefl : ∀ v, env.isEqual v v = true) (v : Value V) :
    v.agree env.isEqual v = true := by
  cases v with
  | undefined => rfl
  | str s => simp [Value.agree]
  | other v => exact hrefl v

theorem isMatch_self (hrefl : ∀ v, env.isEqual v v = true) (v : Variant V) :
    isMatch env.isEqual v v = true := covers_self (agree_self hrefl) v.props

/-- A variant is found in a registry it is in, at the latest where it is. -/
theorem find_of_mem (hrefl : ∀ v, env.isEqual v v = true) (before rest : List (Variant V))
    (v : Variant V) :
    find env.isEqual (before ++ v :: rest) v =
      some ((before.find? (isMatch env.isEqual · v)).getD v) := by
  rw [find, List.find?_append]
  cases before.find? (isMatch env.isEqual · v) with
  | none => simp [isMatch_self hrefl v]
  | some w => rfl

/-- One turn of the loop, at a variant that is requested or not. -/
theorem fetchVariant_eq (hrefl : ∀ v, env.isEqual v v = true) {before rest : List (Variant V)}
    {v : Variant V} {workers : List (Variant V)} {proxies : List (Option FetchedEntry)} :
    fetchVariant env task ⟨before ++ v :: rest, workers, proxies⟩ before.length =
      if task.requests v then
        let variant := (before.find? (isMatch env.isEqual · (fillType v))).getD (fillType v)
        some ⟨before ++ fillType v :: rest, workers ++ [variant],
          proxies ++ (env.fetch workers.length variant).filter env.keeps⟩
      else some ⟨before ++ v :: rest, workers, proxies⟩ := by
  simp [fetchVariant, find_of_mem hrefl]

/-- **The loop**, from any point of the registry. -/
theorem foldlM_fetchVariant (hrefl : ∀ v, env.isEqual v v = true) (rest before : List (Variant V))
    (workers : List (Variant V)) (proxies : List (Option FetchedEntry)) :
    (((rest.zipIdx before.length).filter fun p =>
        compares env.localeEq (query task.provider none) p.1).map Prod.snd).foldlM
      (fetchVariant env task) ⟨before ++ rest, workers, proxies⟩ =
    some ⟨before ++ rest.map (settle env task), workers ++ lookups env task before rest,
      proxies ++ (fetchedFrom env workers.length (lookups env task before rest)).filter
        env.keeps⟩ := by
  induction rest generalizing before workers proxies with
  | nil => simp [lookups]
  | cons v rest ih =>
      have hnext (w : Variant V) := ih (before ++ [w])
      simp only [List.length_append, List.length_singleton, List.append_assoc,
        List.singleton_append] at hnext
      rw [List.zipIdx_cons, List.filter_cons]
      by_cases hcompares : compares env.localeEq (query task.provider none) v = true
      · rw [if_pos hcompares, List.map_cons, List.foldlM_cons, fetchVariant_eq hrefl]
        by_cases hrequests : task.requests v = true
        · have hselects : task.selects env v = true := by simp [ProxyFetchTask.selects, *]
          simp [hrequests, hnext, lookups, settle, hselects]
        · have hselects : task.selects env v = false := by simp [ProxyFetchTask.selects, *]
          simp [hrequests, hnext, lookups, settle, hselects]
      · have hselects : task.selects env v = false := by simp [ProxyFetchTask.selects, *]
        simp [hcompares, hnext, lookups, settle, hselects]

/-- **What the task does.** -/
theorem exec_eq (hrefl : ∀ v, env.isEqual v v = true) (providers : List (Variant V)) :
    ∃ outcome, exec env task providers = some outcome ∧
      outcome.run.workers = lookups env task [] providers ∧
      outcome.run.proxies =
        (fetchedFrom env 0 (lookups env task [] providers)).filter env.keeps ∧
      ∀ p, outcome.validation = some p → p.1 = outcome.run.proxies := by
  have hrun := @foldlM_fetchVariant V env task hrefl providers [] [] []
  simp only [List.length_nil, List.nil_append] at hrun
  refine ⟨_, by simp only [exec, findRefs, hrun]; rfl, rfl, rfl, ?_⟩
  intro p hp
  dsimp only at hp
  split at hp
  · exact Option.some.inj hp ▸ rfl
  · exact absurd hp (by simp)

end Loop

/-! ## When it does what it is for -/

/-- Some requested variant has, with its type filled in, all of its
properties in another one that stands before it. -/
def SomeShadowed (env : Env V) (task : ProxyFetchTask) (before rest : List (Variant V)) : Prop :=
  ∃ l v r, rest = l ++ v :: r ∧ task.selects env v = true ∧
    Shadowed (isMatch env.isEqual) (before ++ l.map (settle env task)) (fillType v)

section Condition

variable {env : Env V} {task : ProxyFetchTask}

theorem someShadowed_nil (before : List (Variant V)) : ¬ SomeShadowed env task before [] := by
  intro ⟨l, v, r, hsplit, _⟩
  simp at hsplit

theorem someShadowed_cons {before rest : List (Variant V)} {v : Variant V} :
    SomeShadowed env task before (v :: rest) ↔
      (task.selects env v = true ∧ Shadowed (isMatch env.isEqual) before (fillType v)) ∨
        SomeShadowed env task (before ++ [settle env task v]) rest := by
  constructor
  · intro ⟨l, w, r, hsplit, hselects, hshadowed⟩
    cases l with
    | nil =>
        obtain ⟨rfl, rfl⟩ := List.cons.inj hsplit
        exact .inl ⟨hselects, by simpa using hshadowed⟩
    | cons u l =>
        obtain ⟨rfl, rfl⟩ := List.cons.inj hsplit
        exact .inr ⟨l, w, r, rfl, hselects, by simpa using hshadowed⟩
  · intro h
    rcases h with ⟨hselects, hshadowed⟩ | ⟨l, w, r, rfl, hselects, hshadowed⟩
    · exact ⟨[], v, rest, rfl, hselects, by simpa using hshadowed⟩
    · exact ⟨v :: l, w, r, rfl, hselects, by simpa using hshadowed⟩

theorem lookups_eq_iff (hrefl : ∀ v, env.isEqual v v = true) (before rest : List (Variant V)) :
    lookups env task before rest = (rest.filter (task.selects env)).map fillType ↔
      ¬ SomeShadowed env task before rest := by
  induction rest generalizing before with
  | nil => simp [lookups, someShadowed_nil]
  | cons v rest ih =>
      have hself := isMatch_self hrefl (fillType v)
      rw [someShadowed_cons, lookups, List.filter_cons]
      by_cases hselects : task.selects env v = true
      · simp only [hselects, if_true, List.map_cons, List.cons.injEq, true_and, not_or, ih,
          getD_find?_eq_self_iff hself]
      · simp only [hselects, Bool.false_eq_true, if_false, false_and, false_or, ih]

/-- The filter of the loop, with the regular expression as assumed. -/
theorem keeps_iff (hip : ∀ s, env.ipRegex s = isDottedQuad s) {ip : Text} {port : Rat} :
    env.keeps (some ⟨some ip, some port⟩) = true ↔
      isDottedQuad ip = true ∧ 0 < port ∧ port ≤ 65536 := by
  have hempty : isDottedQuad [] = false := by decide
  simp only [Env.keeps, hip, Bool.and_eq_true, decide_eq_true_eq]
  constructor
  · intro ⟨⟨⟨_, hquad⟩, hlow⟩, hhigh⟩
    exact ⟨hquad, hlow, hhigh⟩
  · intro ⟨hquad, hlow, hhigh⟩
    have hne : ip ≠ [] := by
      intro h
      simp [h, hempty] at hquad
    exact ⟨⟨⟨⟨hne, by grind⟩, hquad⟩, hlow⟩, hhigh⟩

theorem isUsable_iff {ip : Text} {port : Rat} :
    isUsable (some ⟨some ip, some port⟩) = true ↔
      isDottedQuad ip = true ∧ port.den = 1 ∧ 1 ≤ port ∧ port ≤ 65535 := by
  simp only [isUsable, isTcpPort, Bool.and_eq_true, decide_eq_true_eq, and_assoc]

theorem keeps_of_isUsable (hip : ∀ s, env.ipRegex s = isDottedQuad s) (x : Option FetchedEntry)
    (h : isUsable x = true) : env.keeps x = true := by
  match x with
  | some ⟨some ip, some port⟩ =>
      obtain ⟨hquad, -, hlow, hhigh⟩ := isUsable_iff.mp h
      exact (keeps_iff hip).mpr ⟨hquad, by grind, by grind⟩
  | some ⟨some _, none⟩ | some ⟨none, _⟩ | none => exact absurd h (by simp [isUsable])

/-- A whole number between the bounds of the filter. -/
theorem tcpPort_of_den {port : Rat} (hden : port.den = 1) (hlow : 0 < port)
    (hhigh : port ≤ 65536) (hne : port ≠ 65536) : 1 ≤ port ∧ port ≤ 65535 := by
  obtain ⟨n, rfl⟩ : ∃ n : Int, port = n := ⟨port.num, (Rat.coe_int_num_of_den_eq_one hden).symm⟩
  have hlow' : 0 < n := (Rat.intCast_lt_intCast (a := 0)).mp hlow
  have hhigh' : n ≤ 65536 := Rat.intCast_le_intCast.mp hhigh
  have hne' : n ≠ 65536 := fun h => hne (by simp [h])
  exact ⟨(Rat.intCast_le_intCast (a := 1)).mpr (by omega),
    (Rat.intCast_le_intCast (b := 65535)).mpr (by omega)⟩

/-- No entry among `xs` has a valid address and a port up to 65536 that is
that number or a fraction. -/
def PortsWhole (xs : List (Option FetchedEntry)) : Prop :=
  ∀ ip port, some ⟨some ip, some port⟩ ∈ xs → isDottedQuad ip = true → 0 < port →
    port ≤ 65536 → port.den = 1 ∧ port ≠ 65536

theorem filter_keeps_eq_iff (hip : ∀ s, env.ipRegex s = isDottedQuad s)
    (xs : List (Option FetchedEntry)) :
    xs.filter env.keeps = xs.filter isUsable ↔ PortsWhole xs := by
  rw [filter_eq_filter_iff (keeps_of_isUsable hip)]
  constructor
  · intro h ip port hmem hquad hlow hhigh
    obtain ⟨-, hden, -, hbound⟩ :=
      isUsable_iff.mp (h _ hmem ((keeps_iff hip).mpr ⟨hquad, hlow, hhigh⟩))
    exact ⟨hden, by grind⟩
  · intro h x hx hkeeps
    match x with
    | some ⟨some ip, some port⟩ =>
        obtain ⟨hquad, hlow, hhigh⟩ := (keeps_iff hip).mp hkeeps
        obtain ⟨hden, hne⟩ := h ip port hx hquad hlow hhigh
        exact isUsable_iff.mpr ⟨hquad, hden, tcpPort_of_den hden hlow hhigh hne⟩
    | some ⟨some _, none⟩ | some ⟨none, _⟩ | none => exact absurd hkeeps (by simp [Env.keeps])

/-- **The task does what it is for exactly if** no requested variant is
shadowed and no entry fetched for one has a port that the filter should
refuse. -/
theorem selectsAndFilters_iff (hrefl : ∀ v, env.isEqual v v = true)
    (hip : ∀ s, env.ipRegex s = isDottedQuad s) (classes : List (IProvider V)) :
    (∃ outcome, exec env task (register classes) = some outcome ∧
        SelectsAndFilters env task (register classes) outcome) ↔
      ¬ SomeShadowed env task [] (register classes) ∧
        PortsWhole (fetchedFrom env 0 (requested env task (register classes))) := by
  obtain ⟨outcome, hexec, hworkers, hproxies, hvalidation⟩ :=
    @exec_eq V env task hrefl (register classes)
  rw [← lookups_eq_iff hrefl, ← filter_keeps_eq_iff hip]
  constructor
  · intro ⟨outcome', hexec', hselects⟩
    rw [hexec, Option.some_inj] at hexec'
    subst hexec'
    have hlookups := hworkers.symm.trans hselects.workers
    refine ⟨hlookups, ?_⟩
    rw [← hselects.proxies, hproxies, hlookups]
  · intro ⟨hlookups, hfilter⟩
    have hall : outcome.run.proxies =
        (fetchedFrom env 0 (requested env task (register classes))).filter isUsable := by
      rw [hproxies, hlookups]
      exact hfilter
    refine ⟨outcome, hexec, hworkers.trans hlookups, hall, ?_⟩
    intro p hp x hx
    rw [hvalidation p hp, hall] at hx
    exact (List.mem_filter.mp hx).2

/-- Every fetch answers one proxy, with this port. -/
def envOf (port : Rat) : Env Nat where
  isEqual := (· == ·)
  localeEq := (· == ·)
  ipRegex := isDottedQuad
  fetch := fun _ _ => [some ⟨some "127.0.0.3".toList, some port⟩]

/-- All variants of the provider of the tests, to be validated. -/
def mockedTask : ProxyFetchTask where
  provider := "mockproxy02".toList
  validate := true

theorem selectsAndFilters_mocked :
    ∃ outcome, exec (envOf 3128) mockedTask (register [mockedProxies02]) = some outcome ∧
      SelectsAndFilters (envOf 3128) mockedTask (register [mockedProxies02]) outcome := by
  refine (selectsAndFilters_iff (by simp [envOf]) (fun _ => rfl) [mockedProxies02]).mpr ⟨?_, ?_⟩
  · have hone : register [mockedProxies02] = [mockedVariant] := rfl
    rw [hone, someShadowed_cons]
    simp [not_shadowed_nil, someShadowed_nil]
  · intro ip port hmem
    obtain ⟨_, rfl⟩ : ip = "127.0.0.3".toList ∧ port = 3128 := by
      simpa [fetchedFrom, envOf] using (List.mem_flatMap.mp hmem).choose_spec.2
    intro _ _ _
    exact ⟨rfl, by decide⟩

/-- The port 65536 is kept, and passed on to validation. -/
theorem not_selectsAndFilters_65536 :
    ¬ ∃ outcome, exec (envOf 65536) mockedTask (register [mockedProxies02]) = some outcome ∧
      SelectsAndFilters (envOf 65536) mockedTask (register [mockedProxies02]) outcome := by
  intro ⟨outcome, hexec, hselects⟩
  have hpassed : (exec (envOf 65536) mockedTask (register [mockedProxies02])).bind
      (fun o => o.validation.map Prod.fst) =
        some [some ⟨some "127.0.0.3".toList, some 65536⟩] := by
    decide +kernel
  rw [hexec, Option.bind_some, Option.map_eq_some_iff] at hpassed
  obtain ⟨p, hp, hproxies⟩ := hpassed
  have husable := hselects.validation p hp (some ⟨some "127.0.0.3".toList, some 65536⟩)
    (by simp [hproxies])
  exact absurd husable (by decide +kernel)

end Condition

end ProxyBroker.Provider
