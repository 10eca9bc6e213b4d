/-
ProxyBroker.Server.HttpHeaderTransformTheorems — the transform touches
the first head only.

Once the first chunk has decided, or without a header map, a chunk is
passed as it is (`transform_decided`, `transform_unset`). What the first
chunk does is `transform_first`: TLS and incomplete heads pass, the
latter because `build` throws for want of a request line and the
exception is dropped. A complete head comes out with another block
between the same request line and the same body.
-/
import ProxyBroker.Server.HttpHeaderTransform
import ProxyBroker.Server.RequestHelperTheorems

namespace ProxyBroker.Server

open Lib

namespace RequestHelper

theorem ofHead_frame (host : Host) (hd : Head) :
    (ofHead host hd).secured = false ∧ (ofHead host hd).query = some hd.query ∧
      (ofHead host hd).headers = some hd.block ∧ (ofHead host hd).body = some hd.body := by
  unfold ofHead readStatus
  dsimp only
  split <;> exact ⟨rfl, rfl, rfl, rfl⟩

/-- `parse` returns, and tells TLS by the first byte. -/
theorem parse_returns (host : Host) (d : Bytes) :
    ∃ req, parse host (some d) = .ok (some req) ∧ req.secured = isSecured d := by
  cases hd : isSecured d with
  | true => exact ⟨{ secured := true }, by simp [parse, hd], rfl⟩
  | false =>
      rw [parse_eq host hd]
      cases head? d with
      | none => exact ⟨_, rfl, rfl⟩
      | some hd' => exact ⟨_, rfl, (ofHead_frame host hd').1⟩

/-- `addHeaders` sets the header block and nothing else. -/
theorem addHeaders_frame {host : Host} {engine : Text → Text → Option Text} {req req' : RequestData}
    {headers : List (Text × Text)} (h : addHeaders host engine req headers = .ok req') :
    ∃ block, req' = { req with headers := some block } := by
  unfold addHeaders at h
  cases hx : collect host engine req headers with
  | error e =>
      rw [hx] at h
      cases h
  | ok x =>
      rw [hx] at h
      cases h
      exact ⟨_, rfl⟩

theorem build_addHeaders {host : Host} {engine : Text → Text → Option Text} {req' : RequestData}
    {headers : List (Text × Text)} {hd : Head}
    (h : addHeaders host engine (ofHead host hd) headers = .ok req') :
    ∃ block, req'.headers = some block ∧
      build req' = .ok (Head.join { hd with block := block }) := by
  obtain ⟨block, rfl⟩ := addHeaders_frame h
  obtain ⟨-, hquery, -, hbody⟩ := ofHead_frame host hd
  refine ⟨block, rfl, ?_⟩
  simp [build, hquery, hbody, Head.join]

end RequestHelper

open RequestHelper

namespace HttpHeaderTransform

variable {host : Host} {engine : Text → Text → Option Text} {t : HttpHeaderTransform}

/-! ## One chunk -/

theorem transform_unset (h : t.headers = none) (chunk : Bytes) :
    transform host engine t chunk = .ok (t, chunk) := by
  unfold transform
  rw [h]

theorem transform_decided (h : t.ssl.isSome) (chunk : Bytes) :
    transform host engine t chunk = .ok (t, chunk) := by
  obtain ⟨ssl, hssl⟩ := Option.isSome_iff_exists.mp h
  obtain ⟨req, hparse, -⟩ := parse_returns host chunk
  unfold transform
  cases t.headers with
  | none => rfl
  | some headers =>
      simp only [hparse, hssl]
      rfl

/-- **The first chunk**, which decides. -/
theorem transform_first {headers : List (Text × Text)} (chunk : Bytes) :
    transform host engine { headers := some headers } chunk =
      if isSecured chunk then .ok ({ ssl := some true, headers := some headers }, chunk)
      else
        match head? chunk with
        | none => .ok ({ ssl := some false, headers := some headers }, chunk)
        | some hd =>
            (addHeaders host engine (ofHead host hd) headers).map (fun req =>
              ({ ssl := some false, headers := some headers },
                Head.join { hd with block := req.headers.getD [] })) := by
  cases hsecured : isSecured chunk with
  | true =>
      have hparse : parse host (some chunk) = .ok (some { secured := true }) := by
        simp [parse, hsecured]
      unfold transform
      simp only [hparse]
      rfl
  | false =>
      have hparse := parse_eq host hsecured
      unfold transform
      cases hhead : head? chunk with
      | none =>
          rw [hhead] at hparse
          simp only [hparse]
          rfl
      | some hd =>
          rw [hhead] at hparse
          obtain ⟨hsec, -⟩ := ofHead_frame host hd
          simp only [hparse, Except.mapError, bind, Except.bind, hsec]
          cases hadd : addHeaders host engine (ofHead host hd) headers with
          | error e => rfl
          | ok req =>
              obtain ⟨block, hblock, hbuild⟩ := build_addHeaders hadd
              simp [hbuild, hblock, Except.map, pure, Except.pure]

/-! ## A list of chunks -/

/-- The chunks behind the first, whatever is in them. -/
theorem emitted_decided (h : t.ssl.isSome ∨ t.headers = none) {chunks : List Bytes}
    (hne : ∀ c ∈ chunks, c ≠ []) : emitted host engine t chunks = .ok chunks := by
  induction chunks with
  | nil => rfl
  | cons c chunks ih =>
      have hc : transform host engine t c = .ok (t, c) :=
        h.elim (fun hssl => transform_decided hssl c) (fun hnone => transform_unset hnone c)
      have hrest := ih (fun d hd => hne d (List.mem_cons_of_mem _ hd))
      simp only [emitted, hc, hrest, bind, Except.bind, pure, Except.pure]
      rw [if_neg (hne c List.mem_cons_self)]

theorem join_ne_nil (hd : Head) : hd.join ≠ [] := by
  simp [Head.join, crlf]

/-- **The transform touches the first head only.** -/
theorem emitted_frame (headers : Option (List (Text × Text))) {first : Bytes}
    {rest out : List Bytes} (hne : ∀ c ∈ first :: rest, c ≠ [])
    (h : emitted host engine { headers := headers } (first :: rest) = .ok out) :
    (∀ map hd, headers = some map → isSecured first = false → head? first = some hd →
      ∃ req block, addHeaders host engine (ofHead host hd) map = .ok req ∧
        req.headers = some block ∧ first = hd.join ∧
        out = Head.join { hd with block := block } :: rest) ∧
      (headers = none ∨ isSecured first = true ∨ head? first = none → out = first :: rest) := by
  have hfirst : first ≠ [] := hne first List.mem_cons_self
  have hrest : ∀ c ∈ rest, c ≠ [] := fun c hc => hne c (List.mem_cons_of_mem _ hc)
  -- what the first chunk becomes, and the later ones behind it
  have hout : ∀ ssl chunk, chunk ≠ [] →
      transform host engine { headers := headers } first = .ok (⟨some ssl, headers⟩, chunk) →
      out = chunk :: rest := by
    intro ssl chunk hchunk htransform
    have hlater : emitted host engine ⟨some ssl, headers⟩ rest = .ok rest :=
      emitted_decided (.inl rfl) hrest
    simp only [emitted, htransform, hlater, bind, Except.bind, pure, Except.pure,
      if_neg hchunk] at h
    cases h
    rfl
  constructor
  · intro map hd hmap hsecured hhead
    subst hmap
    have htransform := @transform_first host engine map first
    rw [if_neg (by simp [hsecured]), hhead] at htransform
    dsimp only at htransform
    cases hadd : addHeaders host engine (ofHead host hd) map with
    | error e =>
        rw [hadd] at htransform
        simp [emitted, htransform, Except.map, bind, Except.bind] at h
    | ok req =>
        rw [hadd] at htransform
        obtain ⟨block, hblock, -⟩ := build_addHeaders hadd
        simp only [Except.map, hblock, Option.getD_some] at htransform
        exact ⟨req, block, rfl, hblock, (Head.join_of_head? hhead).symm,
          hout false _ (join_ne_nil _) htransform⟩
  · intro hpass
    cases headers with
    | none =>
        rw [emitted_decided (.inr rfl) hne] at h
        cases h
        rfl
    | some map =>
        have htransform := @transform_first host engine map first
        cases hsecured : isSecured first with
        | true =>
            rw [if_pos hsecured] at htransform
            exact hout true first hfirst htransform
        | false =>
            have hhead : head? first = none := by simpa [hsecured] using hpass
            rw [if_neg (by simp [hsecured]), hhead] at htransform
            exact hout false first hfirst htransform

/-- A head that gets a header, then bytes that look like TLS and hold a
head. -/
def tunnelHead : Bytes := Utf8.encode "GET / HTTP/1.1\r\nA: b\r\n\r\nhi".toList

def tunnelRest : List Bytes := [0x16 :: tunnelHead]

def tunnelOut : List Bytes :=
  Utf8.encode "GET / HTTP/1.1\r\nX: 1\r\nA: b\r\n\r\nhi".toList :: tunnelRest

theorem emitted_frame_tunnel :
    ∃ hd req block, head? tunnelHead = some hd ∧
      addHeaders Host.ascii (fun _ _ => none) (ofHead Host.ascii hd) [(['X'], ['1'])] = .ok req ∧
      req.headers = some block ∧ tunnelHead = hd.join ∧
      tunnelOut = Head.join { hd with block := block } :: tunnelRest := by
  have hout : emitted Host.ascii (fun _ _ => none) { headers := some [(['X'], ['1'])] }
      (tunnelHead :: tunnelRest) = .ok tunnelOut := by
    have hsome : (emitted Host.ascii (fun _ _ => none) { headers := some [(['X'], ['1'])] }
        (tunnelHead :: tunnelRest)).toOption = some tunnelOut := by decide +kernel
    generalize emitted _ _ _ _ = out at hsome
    cases out <;> cases hsome
    rfl
  have hhead : (head? tunnelHead).isSome := by decide
  obtain ⟨hd, hhd⟩ := Option.isSome_iff_exists.mp hhead
  obtain ⟨req, block, hadd, hblock, hfirst, hrest⟩ :=
    (emitted_frame (some [(['X'], ['1'])]) (by decide) hout).1 _ hd rfl (by decide) hhd
  exact ⟨hd, req, block, hhd, hadd, hblock, hfirst, hrest⟩

end HttpHeaderTransform

end ProxyBroker.Server
