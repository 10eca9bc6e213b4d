/-
ProxyBroker.Server.RequestHelperTheorems — `build` undoes `parse`.

`parse_eq` is `parse` in closed form, over the same cut of a head as
`onData`. The parts of the cut, joined by the CRLFs between them, are the
buffer again (`Head.join_of_head?`), and where there is no cut there is
no request line, which `build` refuses.
-/
import ProxyBroker.Server.Head
import ProxyBroker.Server.RequestHelper

namespace ProxyBroker.Server

open Lib SocketHandle

namespace RequestHelper

/-- The request data of a head. -/
def ofHead (host : Host) (hd : Head) : RequestData :=
  readStatus host hd.query
    { query := some hd.query, headers := some hd.block, body := some hd.body }

theorem readStatus_nil (host : Host) (req : RequestData) : readStatus host [] req = req := by
  simp [readStatus, Utf8.decode, Utf8.decodeFrom, statusMatch]

/-- **`parse` in closed form**. -/
theorem parse_eq (host : Host) {d : Bytes} (hd : isSecured d = false) :
    parse host (some d) =
      match head? d with
      | none => .ok (some {})
      | some hd => .ok (some (ofHead host hd)) := by
  cases hhd : head? d with
  | none =>
      have hno : ¬ (bufIndexOf crlf d < bufIndexOf crlfcrlf d ∧ 0 < bufIndexOf crlfcrlf d) := by
        rw [bufIndexOf_lt_iff_head?]
        simp [hhd]
      simp [parse, hd, hno]
  | some hd' =>
      have hyes := bufIndexOf_lt_iff_head?.mpr ⟨hd', hhd⟩
      obtain ⟨query, headers, body, hq, hh, hb, hquery, hblock, hbody⟩ := head?_buffers host hhd
      rw [parse, if_neg (by simp [hd])]
      simp only [if_pos hyes]
      simp only [hq, hh, hb, hquery, hblock, hbody, bind, Except.bind]
      by_cases hpos : 0 < hd'.query.length
      · simp only [if_pos hpos]
        rfl
      · have hnil : hd'.query = [] := List.length_eq_zero_iff.mp (by omega)
        simp [hnil, ofHead, readStatus_nil]

/-- The status changes nothing that is built. -/
theorem build_ofHead (host : Host) (hd : Head) : build (ofHead host hd) = .ok hd.join := by
  unfold ofHead readStatus
  dsimp only
  split <;> rfl

/-- **`build` undoes `parse`.** In a buffer that does not look like TLS,
whose first CRLF lies before its first CRLFCRLF, the three lengths are
not negative, and the parts are put together to the buffer again. Of any
other such buffer `parse` takes nothing, and `build` throws. -/
theorem build_parse (host : Host) {d : Bytes} (hd : isSecured d = false) :
    (∀ i j, indexOf? crlf d = some i → indexOf? crlfcrlf d = some j → i < j →
        0 ≤ bufIndexOf crlf d ∧ 0 ≤ bufIndexOf crlfcrlf d - bufIndexOf crlf d - 2 ∧
          0 ≤ d.length - bufIndexOf crlfcrlf d - 4 ∧
          ∃ req, parse host (some d) = .ok (some req) ∧ build req = .ok d) ∧
      ((¬ ∃ i j, indexOf? crlf d = some i ∧ indexOf? crlfcrlf d = some j ∧ i < j) →
        ∃ req, parse host (some d) = .ok (some req) ∧ req.query = none ∧
          build req = .error emptyQuery) := by
  constructor
  · intro i j hi hj hlt
    have hle := crlf_add_two_le hi hj hlt
    have hlen := indexOf?_length_le (by decide) hj
    simp only [crlfcrlf, List.length_cons, List.length_nil] at hlen
    have hbi : bufIndexOf crlf d = (i : Int) := by simp [bufIndexOf, hi]
    have hbj : bufIndexOf crlfcrlf d = (j : Int) := by simp [bufIndexOf, hj]
    obtain ⟨hd', hhd⟩ : ∃ hd', head? d = some hd' :=
      ⟨_, head?_eq_some_iff.mpr ⟨i, j, hi, hj, hlt, rfl⟩⟩
    rw [hbi, hbj]
    refine ⟨by omega, by omega, by omega, ofHead host hd', ?_, ?_⟩
    · rw [parse_eq host hd, hhd]
    · rw [build_ofHead, Head.join_of_head? hhd]
  · intro hno
    have hnone : head? d = none := by
      cases hhd : head? d with
      | none => rfl
      | some hd' =>
          obtain ⟨i, j, hi, hj, hlt, -⟩ := head?_eq_some_iff.mp hhd
          exact absurd ⟨i, j, hi, hj, hlt⟩ hno
    exact ⟨{}, by rw [parse_eq host hd, hnone], rfl, rfl⟩

/-- A body with a CRLFCRLF and a zero byte of its own. -/
def messageBytes : Bytes := Utf8.encode "GET / HTTP/1.1\r\nA: b\r\n\r\nx\r\n\r\n".toList ++ [0x00]

theorem build_parse_message :
    ∃ req, parse Host.ascii (some messageBytes) = .ok (some req) ∧ build req = .ok messageBytes :=
  ((build_parse Host.ascii (by decide)).1 14 20 (by decide) (by decide) (by decide)).2.2.2

end RequestHelper

end ProxyBroker.Server
