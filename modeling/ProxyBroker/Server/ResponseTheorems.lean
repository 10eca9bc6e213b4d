/-
ProxyBroker.Server.ResponseTheorems — which answers of an extern proxy
have their status recognised.

A `Response` is an answer as it comes in one piece; its parts are bytes,
and say whatever they like. `SocketHandle.onData` and
`RequestHelper.parse` read the status line only together with a header
block, and an answer without header lines has none: its first CRLF is the
first CRLFCRLF. So its status is not seen, which is what CONNECT is
answered with (`status_recognised_iff`).
-/
import ProxyBroker.Server.RequestHelperTheorems

namespace ProxyBroker.Server

open Lib SocketHandle

/-! ## Lines in a buffer -/

theorem crlf_not_prefix {l : Bytes} (hne : l ≠ []) (hl : indexOf? crlf l = none) (r : Bytes) :
    ¬ crlf <+: l ++ (crlf ++ r) := by
  intro hpre
  obtain ⟨-, hmin⟩ := (indexOf?_eq_some_iff (by decide)).mp
    (indexOf?_append_sep (x := 0x0D) (t := [0x0A]) (by decide) hl r)
  exact hmin 0 (List.length_pos_iff.mpr hne) hpre

theorem crlf_not_prefix_lines {lines : List Bytes} (hne : lines ≠ [])
    (hlines : ∀ l ∈ lines, l ≠ [] ∧ indexOf? crlf l = none) (r : Bytes) :
    ¬ crlf <+: crlf.intercalate lines ++ (crlf ++ r) := by
  obtain ⟨l, lines, rfl⟩ := List.exists_cons_of_ne_nil hne
  obtain ⟨hpos, hl⟩ := hlines l List.mem_cons_self
  cases lines with
  | nil =>
      rw [List.intercalate_singleton]
      exact crlf_not_prefix hpos hl r
  | cons l' lines =>
      rw [List.intercalate_cons_cons, List.append_assoc, List.append_assoc]
      exact crlf_not_prefix hpos hl _

/-- The first CRLFCRLF stands behind the last line. -/
theorem indexOf?_lines {lines : List Bytes} (hne : lines ≠ [])
    (hlines : ∀ l ∈ lines, l ≠ [] ∧ indexOf? crlf l = none) (body : Bytes) :
    indexOf? crlfcrlf (crlf.intercalate lines ++ (crlf ++ (crlf ++ body))) =
      some (crlf.intercalate lines).length := by
  induction lines with
  | nil => exact absurd rfl hne
  | cons l lines ih =>
      have hl := (hlines l List.mem_cons_self).2
      cases lines with
      | nil =>
          rw [List.intercalate_singleton]
          exact indexOf?_sep_append_here (x := 0x0D) (t := [0x0A]) (by decide) hl
            (List.prefix_append _ _)
      | cons l' lines =>
          have hlines' := fun k hk => hlines k (List.mem_cons_of_mem _ hk)
          have hnext := crlf_not_prefix_lines (by simp) hlines' (crlf ++ body)
          rw [List.intercalate_cons_cons, List.append_assoc, List.append_assoc]
          refine (indexOf?_sep_append_later (x := 0x0D) (t := [0x0A]) (by decide) hl hnext
            (ih (by simp) hlines')).trans ?_
          simp only [List.length_append, Option.some.injEq]
          rfl

/-- **A head with header lines** is cut at their ends. -/
theorem head?_of_lines {q : Bytes} {lines : List Bytes} (hq : indexOf? crlf q = none)
    (hne : lines ≠ []) (hlines : ∀ l ∈ lines, l ≠ [] ∧ indexOf? crlf l = none) (body : Bytes) :
    head? (q ++ (crlf ++ (crlf.intercalate lines ++ (crlf ++ (crlf ++ body))))) =
      some ⟨q, crlf.intercalate lines, body⟩ := by
  generalize hb : crlf.intercalate lines = block
  have hi : indexOf? crlf (q ++ (crlf ++ (block ++ (crlf ++ (crlf ++ body))))) = some q.length :=
    indexOf?_append_sep (x := 0x0D) (t := [0x0A]) (by decide) hq _
  have hj : indexOf? crlfcrlf (q ++ (crlf ++ (block ++ (crlf ++ (crlf ++ body))))) =
      some (q.length + 2 + block.length) :=
    indexOf?_sep_append_later (x := 0x0D) (t := [0x0A]) (by decide) hq
      (hb ▸ crlf_not_prefix_lines hne hlines _) (hb ▸ indexOf?_lines hne hlines body)
  have hblock : (q ++ (crlf ++ (block ++ (crlf ++ (crlf ++ body))))).drop (q.length + 2) =
      block ++ (crlf ++ (crlf ++ body)) := by
    rw [← List.drop_drop, List.drop_left]
    rfl
  refine head?_eq_some_iff.mpr ⟨_, _, hi, hj, by omega, ?_⟩
  have hbody : (q ++ (crlf ++ (block ++ (crlf ++ (crlf ++ body))))).drop
      (q.length + 2 + block.length + 4) = body := by
    rw [Nat.add_assoc, ← List.drop_drop, hblock, ← List.drop_drop, List.drop_left]
    rfl
  have htake : q.length + 2 + block.length - (q.length + 2) = block.length := by omega
  rw [hblock, hbody, htake, List.take_left, List.take_left]

/-- **A head without header lines** is none. -/
theorem head?_bare {q : Bytes} (hq : indexOf? crlf q = none) (body : Bytes) :
    head? (q ++ (crlf ++ (crlf ++ body))) = none := by
  have hi : indexOf? crlf (q ++ (crlf ++ (crlf ++ body))) = some q.length :=
    indexOf?_append_sep (x := 0x0D) (t := [0x0A]) (by decide) hq _
  have hj : indexOf? crlfcrlf (q ++ (crlf ++ (crlf ++ body))) = some q.length :=
    indexOf?_sep_append_here (x := 0x0D) (t := [0x0A]) (by decide) hq (List.prefix_append _ _)
  simp [head?, hi, hj]

/-! ## Answers -/

def digit (d : Fin 10) : Char := Char.ofNat (48 + d)

/-- An answer in one piece: its status line is 'HTTP/x.y', the three
digits and the reason; a header is a name and a value. -/
structure Response where
  x : Fin 10
  y : Fin 10
  hundreds : Fin 10
  tens : Fin 10
  ones : Fin 10
  reason : Bytes
  headers : List (Bytes × Bytes)
  body : Bytes
  reason_line : indexOf? crlf reason = none
  headers_line : ∀ h ∈ headers, indexOf? crlf (h.1 ++ Utf8.encode [':', ' '] ++ h.2) = none

namespace Response

def code (r : Response) : Nat := r.hundreds * 100 + r.tens * 10 + r.ones

/-- The status line up to the reason. -/
def status (r : Response) : Text :=
  "HTTP/".toList ++ [digit r.x, '.', digit r.y] ++
    [' ', digit r.hundreds, digit r.tens, digit r.ones, ' ']

def statusLine (r : Response) : Bytes := Utf8.encode r.status ++ r.reason

def lines (r : Response) : List Bytes :=
  r.headers.map (fun h => h.1 ++ Utf8.encode [':', ' '] ++ h.2)

def bytes (r : Response) : Bytes :=
  r.statusLine ++ crlf ++ r.lines.flatMap (· ++ crlf) ++ crlf ++ r.body

/-! ## The status line -/

theorem digit_value (d : Fin 10) : (digit d).isDigit = true ∧ (digit d).toNat - 48 = d := by
  revert d
  decide

theorem digit_ne (d : Fin 10) : digit d ≠ ' ' ∧ 0x0D ∉ String.utf8EncodeChar (digit d) := by
  revert d
  decide

/-- No match begins where there is no space. -/
theorem statusMatch_append {p : Text} (hp : ' ' ∉ p) (s : Text) :
    statusMatch (p ++ s) = statusMatch s := by
  induction p with
  | nil => rfl
  | cons c p ih =>
      have hc : c ≠ ' ' := fun h => hp (h ▸ List.mem_cons_self)
      have hnone : statusAt (c :: (p ++ s)) = none := by
        unfold statusAt
        split
        · rename_i heq
          exact absurd (List.cons.inj heq).1 hc
        · rfl
      rw [List.cons_append, statusMatch, hnone, Option.none_or,
        ih (fun h => hp (List.mem_cons_of_mem _ h))]

/-- **The first match is the status**, whatever the reason. -/
theorem statusMatch_statusLine (r : Response) :
    statusMatch (Utf8.decode r.statusLine) = some r.code := by
  have hp : ' ' ∉ "HTTP/".toList ++ [digit r.x, '.', digit r.y] := by
    simp [(digit_ne _).1.symm]
  rw [statusLine, Utf8.decode_encode_append]
  unfold status
  rw [List.append_assoc, statusMatch_append hp]
  simp [statusMatch, statusAt, digit_value, code]

theorem statusLine_line (r : Response) : indexOf? crlf r.statusLine = none := by
  have hp : 0x0D ∉ Utf8.encode r.status := by
    unfold status
    simp [Utf8.encode_cons, digit_ne]
    decide
  rw [statusLine, crlf, indexOf?_append_of_not_mem hp]
  exact Option.map_eq_none_iff.mpr r.reason_line

/-! ## The header lines -/

theorem lines_ok (r : Response) : ∀ l ∈ r.lines, l ≠ [] ∧ indexOf? crlf l = none := by
  intro l hl
  obtain ⟨h, hh, rfl⟩ := List.mem_map.mp hl
  refine ⟨?_, r.headers_line h hh⟩
  have hsep : Utf8.encode [':', ' '] ≠ [] := by decide
  simp [hsep]

/-- Every header line has its colon. -/
theorem colon_mem_decode (r : Response) : ∀ l ∈ r.lines, ':' ∈ Utf8.decode l := by
  intro l hl
  obtain ⟨h, -, rfl⟩ := List.mem_map.mp hl
  have hsep : h.1 ++ Utf8.encode [':', ' '] ++ h.2 = h.1 ++ 0x3A :: (0x20 :: h.2) := by
    rw [List.append_assoc]
    rfl
  have hcolon : Utf8.decode (0x3A :: (0x20 :: h.2)) = [':', ' '] ++ Utf8.decode h.2 :=
    Utf8.decode_encode_append [':', ' '] h.2
  rw [hsep, Utf8.decode_append_ascii h.1 (by decide), hcolon]
  simp

theorem colons (r : Response) (hne : r.headers ≠ []) :
    Head.Colons ⟨r.statusLine, crlf.intercalate r.lines, r.body⟩ := by
  have hlines : r.lines ≠ [] := by simpa [lines] using hne
  have hbytes : Head.byteLines ⟨r.statusLine, crlf.intercalate r.lines, r.body⟩ = r.lines :=
    splitSeq_intercalate (x := 0x0D) (t := [0x0A]) (by decide) hlines
      (fun l hl => (r.lines_ok l hl).2)
  intro x hx
  rw [Head.lines_eq, hbytes] at hx
  obtain ⟨l, hl, rfl⟩ := List.mem_map.mp hx
  exact r.colon_mem_decode l hl

theorem flatMap_crlf {lines : List Bytes} (hne : lines ≠ []) :
    lines.flatMap (· ++ crlf) = crlf.intercalate lines ++ crlf := by
  induction lines with
  | nil => exact absurd rfl hne
  | cons l lines ih =>
      cases lines with
      | nil => simp
      | cons l' lines =>
          rw [List.flatMap_cons, ih (by simp), List.intercalate_cons_cons]
          simp only [List.append_assoc]

/-- **The head of an answer**: there is one exactly if there are header
lines. -/
theorem head?_bytes (r : Response) :
    head? r.bytes =
      if r.headers = [] then none
      else some ⟨r.statusLine, crlf.intercalate r.lines, r.body⟩ := by
  by_cases hnil : r.headers = []
  · have hlines : r.lines = [] := by simp [lines, hnil]
    rw [if_pos hnil, bytes, hlines]
    simpa using head?_bare r.statusLine_line r.body
  · have hlines : r.lines ≠ [] := by simpa [lines] using hnil
    rw [if_neg hnil, bytes, flatMap_crlf hlines]
    simpa using head?_of_lines r.statusLine_line hlines r.lines_ok r.body

theorem looksTls_bytes (r : Response) : looksTls r.bytes = false := by
  have hfirst : r.bytes.head? = some 0x48 := rfl
  simp [looksTls, hfirst]

/-! ## What is recognised -/

/-- **When the status of an answer is recognised.** Both readers return,
and they agree on status and error. The status is that of the answer, and
there is an error exactly if it is 400 or more, if and only if the answer
has a header line. -/
theorem status_recognised_iff (host : Host) (r : Response) {h : SocketHandle}
    (hssl : h.sslDetect = false) (hdata : h.data = none) (herror : h.error = none)
    (hstatus : h.statusCode = none) :
    ∃ h' req, onData host h r.bytes = .ok h' ∧
      RequestHelper.parse host (some r.bytes) = .ok (some req) ∧
      req.statusCode = h'.statusCode ∧ req.error = h'.error ∧
      (h'.statusCode = some r.code ∧ (hasError h' = true ↔ 400 ≤ r.code) ↔ r.headers ≠ []) := by
  have htls := r.looksTls_bytes
  have hfirst := onData_first host hssl htls hdata
  have hparse := RequestHelper.parse_eq host (d := r.bytes) htls
  rw [r.head?_bytes] at hfirst hparse
  by_cases hnil : r.headers = []
  · rw [if_pos hnil] at hfirst hparse
    refine ⟨_, _, hfirst, hparse, hstatus.symm, herror.symm, ?_⟩
    simp [hnil, hstatus]
  · rw [if_neg hnil] at hfirst hparse
    simp only [if_pos (r.colons hnil)] at hfirst
    refine ⟨_, _, hfirst, hparse, ?_⟩
    simp only [firstState, readStatus, RequestHelper.ofHead, RequestHelper.readStatus,
      statusMatch_statusLine, herror, true_and, hasError]
    by_cases hcode : 400 ≤ r.code <;> simp [hcode, hnil]

/-- 'HTTP/1.1 404 Not Found' with one header line. -/
def notFound : Response where
  x := 1
  y := 1
  hundreds := 4
  tens := 0
  ones := 4
  reason := Utf8.encode "Not Found".toList
  headers := [(Utf8.encode "A".toList, Utf8.encode "b".toList)]
  body := []
  reason_line := by decide
  headers_line := by decide

theorem status_recognised_notFound :
    ∃ h' req, onData Host.ascii {} notFound.bytes = .ok h' ∧
      RequestHelper.parse Host.ascii (some notFound.bytes) = .ok (some req) ∧
      req.statusCode = some 404 ∧ h'.statusCode = some 404 ∧ hasError h' = true := by
  have hstatus : ({} : SocketHandle).statusCode = none := rfl
  obtain ⟨h', req, hdata, hparse, hsame, -, hrecognised⟩ :=
    status_recognised_iff Host.ascii notFound rfl rfl rfl hstatus
  obtain ⟨hcode, herror⟩ := hrecognised.mpr (by decide)
  exact ⟨h', req, hdata, hparse, hsame.trans hcode, hcode, herror.mpr (by decide)⟩

/-- The usual answer to CONNECT of a proxy that refuses. -/
def forbidden : Response where
  x := 1
  y := 1
  hundreds := 4
  tens := 0
  ones := 3
  reason := Utf8.encode "Forbidden".toList
  headers := []
  body := []
  reason_line := by decide
  headers_line := by decide

theorem not_status_recognised :
    ¬ ∀ (r : Response) (h' : SocketHandle), onData Host.ascii {} r.bytes = .ok h' →
      h'.statusCode = some r.code ∧ (hasError h' = true ↔ 400 ≤ r.code) := by
  intro h
  have hread : onData Host.ascii {} forbidden.bytes =
      .ok { data := some forbidden.bytes } := by decide
  have hstatus := (h forbidden _ hread).1
  cases hstatus

end Response

end ProxyBroker.Server
