/-
ProxyBroker.Judge.ServerConnectionTheorems — when the judge port survives
what a peer sends first.

The listener throws in two ways. A first line without white space has no
path. And while the judge is enabled, a path '/judge/<id>' must not lead
to something that has no monitor: a request whose monitor does not exist
yet, or what the cache, a plain object, inherits under that name.

`onData_returns_iff` says that these are the only two, for all bytes and every
state of the cache. It is stated on the first line of the chunk
(`headers_head`): where the head ends does not matter for it.
-/
import ProxyBroker.Judge.ServerConnection

namespace ProxyBroker.Judge

open Lib Server

namespace ServerConnection

/-! ## The first line -/

/-- What stands in front of the first CRLF. -/
def firstLine (data : Bytes) : Text :=
  match indexOf? crlfText (Utf8.decode data) with
  | some i => (Utf8.decode data).take i
  | none => Utf8.decode data

/-- The second piece of the first line, if there is one. -/
def path (data : Bytes) : Text := (JsText.splitSpaces (firstLine data)).tail.headD []

theorem crlfText_prefix : crlfText <+: crlfcrlfText := by decide

/-- A text that is cut at its first CRLFCRLF keeps its first line. -/
theorem splitSeq_head_take {s : Text} {j : Nat} (hj : indexOf? crlfcrlfText s = some j) :
    (splitSeq crlfText (s.take j)).head? = (splitSeq crlfText s).head? := by
  obtain ⟨i, hle, hi⟩ := indexOf?_of_prefix (by decide) (by decide) crlfText_prefix hj
  rw [splitSeq_of_some (by decide) hi, List.head?_cons]
  cases htake : indexOf? crlfText (s.take j) with
  | none =>
      rw [splitSeq_of_none htake, List.head?_cons]
      have heq : i = j := by
        -- a CRLF in front of the CRLFCRLF would lie in what is kept
        by_contra hne
        have hlt : i < j := by omega
        have hpre := ((indexOf?_eq_some_iff (by decide)).mp hi).1
        have hnext : i + 1 ≠ j := by
          rintro rfl
          obtain ⟨r, hr⟩ := hpre
          obtain ⟨r', hr'⟩ := ((indexOf?_eq_some_iff (by decide)).mp hj).1
          rw [← List.drop_drop, ← hr] at hr'
          simp [crlfText, crlfcrlfText] at hr'
        refine (indexOf?_eq_none_iff (by decide)).mp htake i ?_
        rw [List.drop_take]
        refine List.prefix_take_iff.mpr ⟨hpre, ?_⟩
        simp only [crlfText, List.length_cons, List.length_nil]
        omega
      rw [heq]
  | some k =>
      rw [splitSeq_of_some (by decide) htake, List.head?_cons]
      have hk := indexOf?_append (by decide) htake (s.drop j)
      rw [List.take_append_drop, hi, Option.some.injEq] at hk
      rw [← hk, List.take_take, Nat.min_eq_left hle]

/-- **The first of the header lines is the first line.** -/
theorem headers_head (data : Bytes) :
    (splitSeq crlfText (receivedHead data)).headD [] = firstLine data := by
  have hwhole : (splitSeq crlfText (Utf8.decode data)).head? = some (firstLine data) := by
    unfold firstLine
    cases h : indexOf? crlfText (Utf8.decode data) with
    | none => rw [splitSeq_of_none h, List.head?_cons]
    | some i => rw [splitSeq_of_some (by decide) h, List.head?_cons]
  have hhead : (splitSeq crlfText (receivedHead data)).head? = some (firstLine data) := by
    rw [← hwhole]
    unfold receivedHead
    dsimp only
    cases h : indexOf? crlfcrlfText (Utf8.decode data) with
    | none => rw [Option.isSome_none, if_neg Bool.false_ne_true]
    | some j =>
        rw [Option.isSome_some, if_pos rfl, splitSeq_of_some (by decide) h, List.headD_cons,
          splitSeq_head_take h]
  rw [List.headD_eq_head?_getD, hhead]
  rfl

/-! ## The listener -/

/-- What is cached under the id has a monitor; and if nothing is, no
object inherits the name. -/
def Monitored (cache : Cache) (id : Text) : Prop :=
  match cache.lookup id with
  | some request => request.monitor.isSome = true
  | none => objectPrototype.contains id = false

instance (cache : Cache) (id : Text) : Decidable (Monitored cache id) :=
  decidable_of_iff
    ((match cache.lookup id with
      | some request => request.monitor.isSome
      | none => !objectPrototype.contains id) = true)
    (by
      unfold Monitored
      split <;> simp)

/-- The log is reached exactly if there is a monitor. -/
theorem monitored_iff (cache : Cache) (id : Text) (headers : List Text) :
    (∃ cache' : Cache, (match get cache id with
      | .undefined => .ok cache
      | .inherited => .error .typeError
      | .own request =>
          match request.monitor with
          | some monitor => .ok (setMonitor cache id (addLogs headers monitor))
          | none => .error .typeError : Except JsException Cache) = .ok cache') ↔
      Monitored cache id := by
  unfold get Monitored
  cases cache.lookup id with
  | none => cases h : objectPrototype.contains id <;> simp
  | some request => cases h : request.monitor <;> simp [h]

/-- **When the judge port survives.** For every first chunk and every
state of the cache the listener returns exactly if the chunk looks like
TLS, or its first line has white space in it and, while the judge is
enabled, its path does not ask for something without a monitor. -/
theorem onData_returns_iff (cache : Cache) (enabled : Bool) (data : Bytes) :
    (∃ cache', onData cache enabled data = .ok cache') ↔
      SocketHandle.looksTls data = true ∨
        (firstLine data).any JsText.isSpace = true ∧
          (enabled = true → ∀ id, judgeId (path data) = some id → Monitored cache id) := by
  cases htls : SocketHandle.looksTls data with
  | true => simp [onData, htls]
  | false =>
      have hpath := JsText.splitSpaces_tail_eq_nil_iff (firstLine data)
      unfold onData
      simp only [htls, Bool.false_eq_true, if_false, headers_head, false_or]
      cases htail : (JsText.splitSpaces (firstLine data)).tail with
      | nil => simp [hpath.mp htail]
      | cons p ps =>
          have hany : (firstLine data).any JsText.isSpace = true := by
            rw [← Bool.not_eq_false]
            intro hno
            rw [hpath.mpr hno] at htail
            cases htail
          have hp : path data = p := by rw [path, htail, List.headD_cons]
          rw [hany, hp]
          simp only [true_and]
          cases hid : judgeId p with
          | none => simp
          | some id =>
              cases enabled with
              | false =>
                  dsimp only
                  cases get cache id <;> simp
              | true =>
                  simp only [if_true, Option.some.injEq, forall_eq', forall_const]
                  exact monitored_iff cache id _

/-- A line that is no request line. -/
theorem onData_noPath :
    onData [] true (Utf8.encode "GET\r\n\r\n".toList) = .error .typeError := by
  decide

/-- A request is asked for that is cached and not performed yet. -/
example :
    onData [("a1".toList, {})] true (Utf8.encode "GET /judge/a1 HTTP/1.1\r\n\r\n".toList) =
      .error .typeError := by
  decide

/-- No request has this id, but every object has this property. -/
example : onData [] true (Utf8.encode "GET /judge/constructor HTTP/1.1\r\n\r\n".toList) =
    .error .typeError := by
  decide

end ServerConnection

end ProxyBroker.Judge
