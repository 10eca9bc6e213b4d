/-
ProxyBroker.Server.SocketHandleTheorems — what a handle makes of a byte
stream.

* `run_returns_iff` — a run of a handle throws exactly when its first
  chunk is a complete head with a header line that has no colon;
* `feed_view_eq_iff` — the cut of a stream into chunks shows exactly
  when the head is completed by a later chunk, or a later chunk starts
  with a byte that looks like TLS;
* `build_eq_forwarded_iff` — the rebuilt request is the received one
  exactly when no header line has a second colon and names and values
  are ASCII.

All three start from the closed form of `onData` (`onData_first`,
`feed_later`).
-/
import ProxyBroker.Server.Head

namespace ProxyBroker.Server

open Lib

namespace SocketHandle

/-! ## The state behind a first head -/

@[simp] theorem readStatus_data (host : Host) (q : Bytes) (h : SocketHandle) :
    (readStatus host q h).data = h.data := by
  cases hm : statusMatch (Utf8.decode q) <;> simp [readStatus, hm]

@[simp] theorem readStatus_sslDetect (host : Host) (q : Bytes) (h : SocketHandle) :
    (readStatus host q h).sslDetect = h.sslDetect := by
  cases hm : statusMatch (Utf8.decode q) <;> simp [readStatus, hm]

@[simp] theorem readStatus_query (host : Host) (q : Bytes) (h : SocketHandle) :
    (readStatus host q h).query = h.query := by
  cases hm : statusMatch (Utf8.decode q) <;> simp [readStatus, hm]

@[simp] theorem readStatus_headersList (host : Host) (q : Bytes) (h : SocketHandle) :
    (readStatus host q h).headersList = h.headersList := by
  cases hm : statusMatch (Utf8.decode q) <;> simp [readStatus, hm]

@[simp] theorem readStatus_body (host : Host) (q : Bytes) (h : SocketHandle) :
    (readStatus host q h).body = h.body := by
  cases hm : statusMatch (Utf8.decode q) <;> simp [readStatus, hm]

/-- The status is read off the request line: what follows the head does
not change it. -/
theorem firstState_append (host : Host) (h : SocketHandle) (d r : Bytes) (hd : Head) :
    firstState host h (d ++ r) { hd with body := hd.body ++ r } =
      { firstState host h d hd with data := some (d ++ r), body := some (hd.body ++ r) } := by
  cases hm : statusMatch (Utf8.decode hd.query) <;> simp [firstState, readStatus, hm, Head.lines]

/-- A fresh handle that is given a whole stream at once. -/
theorem feed_single (host : Host) {d : Bytes} (hd : looksTls d = false) :
    feed host {} [d] =
      match head? d with
      | none => .ok { data := some d }
      | some hd => if hd.Colons then .ok (firstState host {} d hd) else .error .typeError := by
  rw [feed_cons, onData_first host rfl hd rfl]
  cases head? d with
  | none => rfl
  | some hd => by_cases hc : hd.Colons <;> simp only [hc] <;> rfl

/-! ## No chunk throws, but for a header line without a colon -/

/-- A first chunk with a complete head, one line of which has no colon. -/
def Malformed (c : Bytes) : Prop :=
  looksTls c = false ∧ ∃ hd, head? c = some hd ∧ ¬ hd.Colons

/-- The whole behaviour of `onData` as to exceptions, in any state. -/
theorem onData_ok_iff (host : Host) (h : SocketHandle) (c : Bytes) :
    (∃ h', onData host h c = .ok h') ↔
      ¬ (h.sslDetect = false ∧ h.data = none ∧ Malformed c) := by
  cases hs : h.sslDetect with
  | true => simp [onData_tls host (show (h.sslDetect || looksTls c) = true by simp [hs])]
  | false =>
      cases hc : looksTls c with
      | true =>
          simp [onData_tls host (show (h.sslDetect || looksTls c) = true by simp [hc]),
            Malformed, hc]
      | false =>
          cases hd : h.data with
          | some old => simp [onData_later host hs hc hd]
          | none =>
              rw [onData_first host hs hc hd]
              cases hhd : head? c with
              | none => simp [Malformed, hhd]
              | some hd' => by_cases hcol : hd'.Colons <;> simp [Malformed, hc, hhd, hcol]

/-- No buffer of negative size is asked for. -/
theorem onData_ne_rangeError (host : Host) (h : SocketHandle) (c : Bytes) :
    onData host h c ≠ .error .rangeError := by
  by_cases hs : (h.sslDetect || looksTls c) = true
  · simp [onData_tls host hs]
  · simp only [Bool.not_eq_true, Bool.or_eq_false_iff] at hs
    cases hd : h.data with
    | some old => simp [onData_later host hs.1 hs.2 hd]
    | none =>
        rw [onData_first host hs.1 hs.2 hd]
        cases head? c with
        | none => simp
        | some hd' => by_cases hcol : hd'.Colons <;> simp [hcol]

/-- A chunk leaves a state in which no later chunk throws. -/
theorem onData_settled {host : Host} {h h' : SocketHandle} {c : Bytes}
    (hok : onData host h c = .ok h') : h'.sslDetect = true ∨ h'.data ≠ none := by
  by_cases hs : (h.sslDetect || looksTls c) = true
  · rw [onData_tls host hs] at hok
    cases hok
    exact .inl rfl
  · simp only [Bool.not_eq_true, Bool.or_eq_false_iff] at hs
    right
    cases hd : h.data with
    | some old =>
        rw [onData_later host hs.1 hs.2 hd] at hok
        cases hok
        simp
    | none =>
        rw [onData_first host hs.1 hs.2 hd] at hok
        cases hhd : head? c with
        | none => rw [hhd] at hok; cases hok; simp
        | some hd' =>
            rw [hhd] at hok
            by_cases hcol : hd'.Colons
            · simp only [if_pos hcol] at hok
              cases hok
              simp [firstState]
            · simp [if_neg hcol] at hok

theorem runEvents_cons (host : Host) (h : SocketHandle) (e : Event) (es : List Event) :
    runEvents host h (e :: es) =
      (handleEvent host h e).bind (fun h' => runEvents host h' es) := rfl

theorem chunks_cons_data (c : Bytes) (es : List Event) :
    chunks (.data c :: es) = c :: chunks es := rfl

theorem chunks_cons_of_ne {e : Event} (he : ∀ c, e ≠ .data c) (es : List Event) :
    chunks (e :: es) = chunks es := by
  cases e with
  | data c => exact absurd rfl (he c)
  | _ => rfl

theorem chunks_append (es fs : List Event) : chunks (es ++ fs) = chunks es ++ chunks fs :=
  List.filterMap_append

/-- What an event other than a chunk leaves alone: everything that was
read from the stream but the header list. -/
structure SameRead (h h' : SocketHandle) : Prop where
  sslDetect : h'.sslDetect = h.sslDetect
  data : h'.data = h.data
  query : h'.query = h.query
  body : h'.body = h.body

theorem SameRead.trans {h h' h'' : SocketHandle} (h₁ : SameRead h h') (h₂ : SameRead h' h'') :
    SameRead h h'' where
  sslDetect := h₂.sslDetect.trans h₁.sslDetect
  data := h₂.data.trans h₁.data
  query := h₂.query.trans h₁.query
  body := h₂.body.trans h₁.body

theorem sameRead_removeHeader (host : Host) (h : SocketHandle) (key : Text) :
    SameRead h (h.removeHeader host key) := ⟨rfl, rfl, rfl, rfl⟩

theorem sameRead_setHeader (host : Host) (h : SocketHandle) (orgKey value : Text) :
    SameRead h (h.setHeader host orgKey value) := ⟨rfl, rfl, rfl, rfl⟩

/-- Frame: an event other than a chunk always succeeds. -/
theorem handleEvent_frame (host : Host) (h : SocketHandle) {e : Event}
    (he : ∀ c, e ≠ .data c) :
    ∃ h', handleEvent host h e = .ok h' ∧ SameRead h h' := by
  cases e with
  | data c => exact absurd rfl (he c)
  | removeHeader key => exact ⟨_, rfl, sameRead_removeHeader host h key⟩
  | setHeader orgKey value => exact ⟨_, rfl, sameRead_setHeader host h orgKey value⟩
  | error err => exact ⟨_, rfl, rfl, rfl, rfl, rfl⟩
  | timeout =>
      refine ⟨_, rfl, ?_⟩
      unfold onTimeout
      split <;> exact ⟨rfl, rfl, rfl, rfl⟩
  | close => exact ⟨_, rfl, rfl, rfl, rfl, rfl⟩
  | finish => exact ⟨_, rfl, rfl, rfl, rfl, rfl⟩

theorem runEvents_ne_rangeError (host : Host) (h : SocketHandle) (es : List Event) :
    runEvents host h es ≠ .error .rangeError := by
  induction es generalizing h with
  | nil => rintro ⟨⟩
  | cons e es ih =>
      rw [runEvents_cons]
      cases he : handleEvent host h e with
      | ok h' => exact ih h'
      | error x =>
          by_cases hdata : ∃ c, e = .data c
          · obtain ⟨c, rfl⟩ := hdata
            rintro ⟨⟩
            exact onData_ne_rangeError host h c he
          · obtain ⟨h', hok, -⟩ := handleEvent_frame host h (fun c hc => hdata ⟨c, hc⟩)
            rw [hok] at he
            cases he

/-- Once a chunk is in, the run goes through. -/
theorem runEvents_settled (host : Host) {h : SocketHandle}
    (hset : h.sslDetect = true ∨ h.data ≠ none) (es : List Event) :
    ∃ h', runEvents host h es = .ok h' := by
  induction es generalizing h with
  | nil => exact ⟨h, rfl⟩
  | cons e es ih =>
      have hstep : ∃ h', handleEvent host h e = .ok h' ∧
          (h'.sslDetect = true ∨ h'.data ≠ none) := by
        by_cases he : ∃ c, e = .data c
        · obtain ⟨c, rfl⟩ := he
          obtain ⟨h', hok⟩ := (onData_ok_iff host h c).mpr (by
            rintro ⟨hs, hd, -⟩
            rcases hset with hset | hset
            · rw [hs] at hset; cases hset
            · exact hset hd)
          exact ⟨h', hok, onData_settled hok⟩
        · obtain ⟨h', hok, hsame⟩ := handleEvent_frame host h (fun c hc => he ⟨c, hc⟩)
          exact ⟨h', hok, by rwa [hsame.sslDetect, hsame.data]⟩
      obtain ⟨h', hok, hset'⟩ := hstep
      rw [runEvents_cons, hok]
      exact ih hset'

theorem runEvents_ok_iff (host : Host) (es : List Event) :
    (∃ h, runEvents host {} es = .ok h) ↔ ∀ c, (chunks es).head? = some c → ¬ Malformed c := by
  have key : ∀ h : SocketHandle, h.sslDetect = false → h.data = none →
      ((∃ h', runEvents host h es = .ok h') ↔ ∀ c, (chunks es).head? = some c → ¬ Malformed c) := by
    induction es with
    | nil => intro h _ _; simp [runEvents, chunks, pure, Except.pure]
    | cons e es ih =>
        intro h hs hd
        by_cases he : ∃ c, e = .data c
        · obtain ⟨c, rfl⟩ := he
          have hiff := onData_ok_iff host h c
          simp only [hs, hd, true_and] at hiff
          rw [runEvents_cons]
          simp only [chunks_cons_data, List.head?_cons, Option.some.injEq, forall_eq', handleEvent]
          rw [← hiff]
          constructor
          · rintro ⟨h', hrun⟩
            cases hon : onData host h c with
            | ok h1 => exact ⟨h1, rfl⟩
            | error x => rw [hon] at hrun; cases hrun
          · rintro ⟨h1, hon⟩
            rw [hon]
            exact runEvents_settled host (onData_settled hon) es
        · obtain ⟨h', hok, hsame⟩ := handleEvent_frame host h (fun c hc => he ⟨c, hc⟩)
          rw [runEvents_cons, hok]
          rw [chunks_cons_of_ne (fun c hc => he ⟨c, hc⟩)]
          exact ih h' (hsame.sslDetect.trans hs) (hsame.data.trans hd)
  exact key {} rfl rfl

/-- **When a handle throws.** In every run of a fresh handle, every
`onData` returns normally exactly when the first chunk is not a complete
head with a line that has no colon; and no run asks for a buffer of
negative size. -/
theorem run_returns_iff (host : Host) (es : List Event) :
    ((∃ h, runEvents host {} es = .ok h) ↔ ∀ c, (chunks es).head? = some c → ¬ Malformed c) ∧
      runEvents host {} es ≠ .error .rangeError :=
  ⟨runEvents_ok_iff host es, runEvents_ne_rangeError host {} es⟩

/-- A header line without a colon ends the process. -/
theorem run_colonless_throws :
    runEvents Host.ascii {} [.data (Utf8.encode "GET / HTTP/1.1\r\nHost\r\n\r\n".toList)] =
      .error .typeError := by
  decide

/-! ## The cut of the stream -/

/-- What the server reads off a handle. -/
structure View where
  query : Option Bytes
  headersList : List Header
  body : Option Bytes
  statusCode : Option Nat
  hasError : Bool
  build : Option Bytes
  deriving DecidableEq, Repr

def view (host : Host) (h : SocketHandle) : View where
  query := h.query
  headersList := h.headersList
  body := h.body
  statusCode := h.statusCode
  hasError := hasError h
  build := build host h

/-- A head that the first chunk does not complete is not read: the handle
only collects bytes. -/
theorem feed_unread (host : Host) {c : Bytes} (hc : looksTls c = false) (hno : head? c = none)
    (rest : List Bytes) :
    feed host {} (c :: rest) =
      .ok { data := some (c ++ (kept rest).flatten), sslDetect := rest.any looksTls } := by
  rw [feed_cons, onData_first host rfl hc rfl, hno]
  show feed host { data := some c } rest = _
  rw [feed_later host rfl rfl]
  rfl

/-- A head that the first chunk completes. -/
theorem feed_read (host : Host) {c : Bytes} {hd : Head} (hc : looksTls c = false)
    (hhd : head? c = some hd) (hcol : hd.Colons) (rest : List Bytes) :
    feed host {} (c :: rest) =
      .ok { firstState host {} c hd with
        data := some (c ++ (kept rest).flatten)
        body := some (hd.body ++ (kept rest).flatten)
        sslDetect := rest.any looksTls } := by
  rw [feed_cons, onData_first host rfl hc rfl, hhd]
  simp only [if_pos hcol]
  show feed host (firstState host {} c hd) rest = _
  rw [feed_later host (by simp [firstState]) (show _ = some c by simp [firstState])]
  simp [firstState]

/-- **When the cut of a stream does not show.** For a stream that does
not look like TLS, cut into a first chunk and later ones, the view of the
handle is that of the whole stream in one chunk exactly when

* the first chunk holds a complete head with a line that has no colon
  (both throw), or
* the head of the stream, if complete, is complete in the first chunk,
  and no later chunk starts with a byte that looks like TLS. -/
theorem feed_view_eq_iff (host : Host) (c : Bytes) (rest : List Bytes)
    (htls : looksTls (c ++ rest.flatten) = false) :
    (feed host {} (c :: rest)).map (view host) =
        (feed host {} [c ++ rest.flatten]).map (view host) ↔
      (∃ hd, head? c = some hd ∧ ¬ hd.Colons) ∨
        ((head? (c ++ rest.flatten)).isSome → (head? c).isSome) ∧ rest.any looksTls = false := by
  have hc : looksTls c = false := by
    cases c with
    | nil => rfl
    | cons a c => simpa [looksTls] using htls
  rw [feed_single host htls]
  cases hhd : head? c with
  | none =>
      rw [feed_unread host hc hhd]
      cases hall : head? (c ++ rest.flatten) with
      | none =>
          cases htail : rest.any looksTls with
          | false => simp [kept_eq_self htail]
          | true =>
              have hne : (kept rest).flatten ≠ rest.flatten := kept_ne_flatten htail
              simp [Except.map, view, build, hne]
      | some hd =>
          by_cases hcol : hd.Colons
          · simp [hcol, Except.map, view, firstState]
          · simp [hcol, Except.map]
  | some hd =>
      rw [head?_append hhd]
      have hcol' : Head.Colons { hd with body := hd.body ++ rest.flatten } ↔ hd.Colons := Iff.rfl
      by_cases hcol : hd.Colons
      · rw [feed_read host hc hhd hcol]
        simp only [hcol', hcol, if_true, firstState_append]
        cases htail : rest.any looksTls with
        | false => simp [kept_eq_self htail, firstState]
        | true =>
            have hne : (kept rest).flatten ≠ rest.flatten := kept_ne_flatten htail
            simp [Except.map, view, hne, hcol]
      · rw [feed_cons, onData_first host rfl hc rfl, hhd]
        simp only [hcol', hcol, if_false]
        simp [Except.bind, Except.map, hcol]

def splitHead : List Bytes :=
  [Utf8.encode "GET / HTTP/1.1\r\nA: b\r\n".toList, Utf8.encode "\r\nbody".toList]

/-- A body that comes in a packet of its own does not show. -/
theorem feed_view_eq_body :
    (feed Host.ascii {} [Utf8.encode "GET / HTTP/1.1\r\nA: b\r\n\r\n".toList, [0x62, 0x63]]).map
        (view Host.ascii) =
      (feed Host.ascii {} [Utf8.encode "GET / HTTP/1.1\r\nA: b\r\n\r\nbc".toList]).map
        (view Host.ascii) :=
  (feed_view_eq_iff Host.ascii (Utf8.encode "GET / HTTP/1.1\r\nA: b\r\n\r\n".toList)
    [[0x62, 0x63]] (by decide)).mpr (.inr (by decide))

/-- A head cut in two is never read. -/
theorem feed_view_splitHead :
    (feed Host.ascii {} splitHead).map (view Host.ascii) ≠
      (feed Host.ascii {} [splitHead.flatten]).map (view Host.ascii) := by
  decide

/-! ## The head that is sent on -/

/-- A received line, name and value trimmed. -/
def forwardedLine (x : Text) : Text :=
  JsText.trim (JsText.beforeFirst ':' x) ++ [':', ' '] ++ JsText.trim (JsText.afterFirst ':' x)

/-- The request as it was received, but for the blanks around names and
values. -/
def forwarded (hd : Head) : Bytes :=
  hd.query ++ crlf ++ Utf8.encode (crlfText.intercalate (hd.lines.map forwardedLine)) ++
    crlf ++ crlf ++ hd.body

/-- No second colon, and nothing but ASCII in name and value. -/
def Plain (x : Text) : Prop :=
  ':' ∉ JsText.afterFirst ':' x ∧ (forwardedLine x).all Utf8.isAscii = true

instance (x : Text) : Decidable (Plain x) := inferInstanceAs (Decidable (_ ∧ _))

/-- The line `build` makes of a received line. -/
def builtLine (host : Host) (x : Text) : Text :=
  (readLine host x).orgKey ++ [':', ' '] ++ (readLine host x).value

theorem builtLine_eq (host : Host) {x : Text} (h : ':' ∉ JsText.afterFirst ':' x) :
    builtLine host x = forwardedLine x := by
  have htake : (JsText.afterFirst ':' x).takeWhile (· ≠ ':') = JsText.afterFirst ':' x := by
    rw [List.takeWhile_eq_self_iff]
    intro a ha
    exact decide_eq_true (ne_of_mem_of_not_mem ha h)
  simp only [builtLine, readLine, htake, forwardedLine]

/-- What stands behind a second colon is lost. -/
theorem builtLine_units_lt (host : Host) {x : Text} (h : ':' ∈ JsText.afterFirst ':' x) :
    Utf8.units (builtLine host x) < Utf8.units (forwardedLine x) := by
  obtain ⟨p, q, hpq, hp⟩ := List.eq_append_cons_of_mem h
  have htake : (p ++ ':' :: q).takeWhile (· ≠ ':') = p := by
    rw [List.takeWhile_append_of_pos (by simpa using fun a ha => ne_of_mem_of_not_mem ha hp)]
    simp
  obtain ⟨r, hr⟩ := JsText.trim_prefix_trimStart p
  have hcolon : Utf8.units (':' :: JsText.trimEnd q) =
      1 + Utf8.units (JsText.trimEnd q) := Utf8.units_cons _ _
  simp only [builtLine, readLine, forwardedLine, hpq, htake,
    JsText.trim_append_cons p q (show JsText.isSpace ':' = false by decide), ← hr,
    Utf8.units_append, hcolon]
  omega

/-- A built line is no longer than the received one, and as long only
when it is plain. -/
theorem builtLine_units_le (host : Host) (x : Text) :
    Utf8.units (builtLine host x) ≤ (Utf8.encode (forwardedLine x)).length ∧
      (Utf8.units (builtLine host x) = (Utf8.encode (forwardedLine x)).length ↔ Plain x) := by
  have hle := Utf8.units_le_length_encode (forwardedLine x)
  have hiff := Utf8.units_eq_length_encode_iff (forwardedLine x)
  by_cases h : ':' ∈ JsText.afterFirst ':' x
  · have hlt := builtLine_units_lt host h
    refine ⟨by omega, ?_⟩
    constructor
    · intro heq
      omega
    · intro hplain
      exact absurd h hplain.1
  · rw [builtLine_eq host h]
    exact ⟨hle, hiff.trans ⟨fun ha => ⟨h, ha⟩, fun hp => hp.2⟩⟩

theorem units_crlfText : Utf8.units crlfText = 2 := by decide

theorem length_encode_crlfText : (Utf8.encode crlfText).length = 2 := by decide

/-- The same for a block of lines. -/
theorem builtBlock_units_le (host : Host) (xs : List Text) :
    Utf8.units (crlfText.intercalate (xs.map (builtLine host))) ≤
        (Utf8.encode (crlfText.intercalate (xs.map forwardedLine))).length ∧
      (Utf8.units (crlfText.intercalate (xs.map (builtLine host))) =
          (Utf8.encode (crlfText.intercalate (xs.map forwardedLine))).length ↔
        ∀ x ∈ xs, Plain x) := by
  induction xs with
  | nil => simp
  | cons x xs ih =>
      obtain ⟨hle, hiff⟩ := builtLine_units_le host x
      cases xs with
      | nil => simpa using ⟨hle, hiff⟩
      | cons y ys =>
          obtain ⟨ihle, ihiff⟩ := ih
          rw [List.map_cons, List.map_cons] at ihle ihiff
          rw [List.map_cons, List.map_cons, List.intercalate_cons_cons, List.map_cons,
            List.map_cons, List.intercalate_cons_cons, List.forall_mem_cons, ← hiff, ← ihiff]
          simp only [Utf8.units_append, Utf8.encode_append, List.length_append, units_crlfText,
            length_encode_crlfText]
          omega

/-- The header block `build` writes is the received one exactly when
every line is plain: otherwise its buffer is too short. -/
theorem buildHeaders_eq_iff (host : Host) (xs : List Text) :
    buildHeaders host (xs.map (readLine host)) =
        Utf8.encode (crlfText.intercalate (xs.map forwardedLine)) ↔ ∀ x ∈ xs, Plain x := by
  have hentries : strEntries (xs.map (readLine host)) =
      crlfText.intercalate (xs.map (builtLine host)) := by
    rw [strEntries, List.map_map]
    rfl
  have hiff := (builtBlock_units_le host xs).2
  rw [buildHeaders, hentries]
  constructor
  · intro heq
    have hlen := congrArg List.length heq
    rw [Utf8.write_length, host.uninitialised_length] at hlen
    exact hiff.mp hlen
  · intro hplain
    have hlen := hiff.mpr hplain
    have hmap : xs.map (builtLine host) = xs.map forwardedLine := by
      rw [List.map_inj_left]
      intro x hx
      exact builtLine_eq host (hplain x hx).1
    rw [hmap] at hlen ⊢
    rw [Utf8.write_of_length_eq]
    rw [host.uninitialised_length, hlen]

/-- **When a request is sent on as it was received.** For a complete head
in one chunk, every line of which has a colon, `build` gives back the
request line, every header line with its trimmed name and value, and the
body, exactly when every line is plain. -/
theorem build_eq_forwarded_iff (host : Host) {d : Bytes} {hd : Head} {block : Text}
    (hhd : head? d = some hd) (hblock : hd.block = Utf8.encode block) (hcol : hd.Colons) :
    (∃ h, onData host {} d = .ok h ∧ build host h = some (forwarded hd)) ↔
      looksTls d = false ∧ ∀ x ∈ splitSeq crlfText block, Plain x := by
  have hlines : hd.lines = splitSeq crlfText block := by
    rw [Head.lines, hblock, Utf8.decode_encode]
  cases hc : looksTls d with
  | true =>
      rw [onData_tls host (by simp [hc])]
      simp [build]
  | false =>
      rw [onData_first host rfl hc rfl, hhd]
      simp only [if_pos hcol]
      have hbuild : build host (firstState host {} d hd) =
          some (hd.query ++ crlf ++ buildHeaders host (hd.lines.map (readLine host)) ++
            crlf ++ crlf ++ hd.body) := by
        simp [build, firstState]
      rw [← hlines, ← buildHeaders_eq_iff host]
      constructor
      · intro hex
        obtain ⟨h, hok, hb⟩ := hex
        cases hok
        rw [hbuild, forwarded] at hb
        simpa using hb
      · intro hall
        exact ⟨_, rfl, by rw [hbuild, forwarded, hall.2]⟩

theorem build_eq_forwarded_plain :
    ∃ h, onData Host.ascii {} (Utf8.encode "GET / HTTP/1.1\r\nA:  b \r\n\r\nbody".toList) = .ok h ∧
      build Host.ascii h = some (forwarded
        ⟨Utf8.encode "GET / HTTP/1.1".toList, Utf8.encode "A:  b ".toList,
          Utf8.encode "body".toList⟩) :=
  (build_eq_forwarded_iff Host.ascii (by decide) (show _ = Utf8.encode "A:  b ".toList from rfl)
    (by decide)).mpr (by decide)

/-- The port of a Host header is lost. -/
theorem build_ne_forwarded_port :
    ¬ ∃ h, onData Host.ascii {} (Utf8.encode "GET / HTTP/1.1\r\nHost: h:8080\r\n\r\n".toList) =
        .ok h ∧
      build Host.ascii h = some (forwarded
        ⟨Utf8.encode "GET / HTTP/1.1".toList, Utf8.encode "Host: h:8080".toList, []⟩) := by
  intro hex
  obtain ⟨h, hok, hb⟩ := hex
  have hne : (onData Host.ascii {}
        (Utf8.encode "GET / HTTP/1.1\r\nHost: h:8080\r\n\r\n".toList)).toOption.bind
        (build Host.ascii) ≠
      some (forwarded
        ⟨Utf8.encode "GET / HTTP/1.1".toList, Utf8.encode "Host: h:8080".toList, []⟩) := by
    decide
  rw [hok] at hne
  exact hne hb

end SocketHandle

end ProxyBroker.Server
