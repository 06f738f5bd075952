import Skynet.Analysis.ClusterFrames
import Skynet.Library.Interleaving

/-!
# Cluster requests survive the wire

What `lunpackrequest` reads in each of the four layouts that `packrequest` writes, and
what the agent makes of the frames of any number of requests, merged in any way: every
request arrives once, with its address, its bytes and its mode, and `large_request` is
empty afterwards.

A frame of one request writes `large_request` at the session of this request only.
-/

namespace Skynet.Analysis

open Library Model List ClusterAgent

/-! ## Requests -/

def Destination : ClusterAddr → Prop
  | .number n => 1 ≤ n ∧ n < 2 ^ 32
  | .name s => 1 ≤ s.length ∧ s.length ≤ 255
  | .other _ => False

structure ClusterRequest where
  addr : ClusterAddr
  session : ℤ
  msg : Bytes
  isPush : Bool
  destination : Destination addr
  session_pos : 1 ≤ session
  session_lt : session < 2 ^ 31
  msg_lt : msg.length < 2 ^ 31

namespace ClusterRequest

def packed (r : ClusterRequest) : Except ClusterError (Bytes × ℤ × Option (List Bytes)) :=
  packrequest r.addr r.session (some r.msg) r.isPush

def frames (r : ClusterRequest) : List Bytes :=
  match r.packed with
  | .ok (request, _, padding) => request :: padding.getD []
  | .error _ => []

def wireSession (r : ClusterRequest) : ℕ :=
  if r.isPush ∧ r.msg.length < multiPart then 0 else r.session.toNat

def arrival (r : ClusterRequest) : Arrival := .request (some r.addr) r.wireSession r.msg r.isPush

end ClusterRequest

/-! ## Packages -/

def singlePackage (addr : ClusterAddr) (session : ℕ) (msg : Bytes) : Bytes :=
  match addr with
  | .number n => [0] ++ (fillUint32 n.toNat ++ (fillUint32 session ++ msg))
  | .name s => [0x80, UInt8.ofNat s.length] ++ s ++ (fillUint32 session ++ msg)
  | .other _ => []

def beginPackage (addr : ClusterAddr) (session size : ℕ) (isPush : Bool) : Bytes :=
  match addr with
  | .number n => [if isPush then 0x41 else 1] ++
      (fillUint32 n.toNat ++ (fillUint32 session ++ (fillUint32 size ++ [])))
  | .name s => [if isPush then 0xc1 else 0x81, UInt8.ofNat s.length] ++ s ++
      (fillUint32 session ++ (fillUint32 size ++ []))
  | .other _ => []

def partPackage (type : UInt8) (session : ℕ) (part : Bytes) : Bytes :=
  [type] ++ (fillUint32 session ++ part)

def requestParts (session : ℕ) (left : Bytes) : List Bytes :=
  partsOf (partPackage 2 session) (partPackage 3 session) left

variable {isPush : Bool} {msg : Bytes}

theorem packreqNumber_single {n session : ℤ}
    (hn : Destination (.number n)) (hmsg : msg.length < multiPart) :
    packreqNumber n session msg isPush =
      .ok (framed (singlePackage (.number n) (if isPush then 0 else session.toNat) msg), 0) := by
  have hlen : (singlePackage (.number n) (if isPush then 0 else session.toNat) msg).length =
      msg.length + 9 := by
    simp only [singlePackage, length_append, length_cons, length_nil, length_fillUint32]
    omega
  have hmod : n % 2 ^ 32 = n := Int.emod_eq_of_lt (le_trans (by decide) hn.1) hn.2
  have hheader := @fillHeader_of_lt (msg.length + 9) (by simp only [multiPart] at hmsg; omega)
  rw [framed_of_length hlen]
  simp only [packreqNumber, if_pos hmsg, hheader, hmod, singlePackage, bind,
    Except.bind, pure, Except.pure, append_assoc]

theorem packreqNumber_multi {n session : ℤ}
    (hn : Destination (.number n)) (hmsg : ¬ msg.length < multiPart) :
    packreqNumber n session msg isPush =
      .ok (framed (beginPackage (.number n) session.toNat msg.length isPush), partCount msg) := by
  have hlen : (beginPackage (.number n) session.toNat msg.length isPush).length = 13 := by
    simp only [beginPackage, length_append, length_cons, length_nil, length_fillUint32]
  have hmod : n % 2 ^ 32 = n := Int.emod_eq_of_lt (le_trans (by decide) hn.1) hn.2
  have hheader := @fillHeader_of_lt 13 (by decide)
  rw [framed_of_length hlen]
  simp only [packreqNumber, if_neg hmsg, hheader, hmod, beginPackage, bind,
    Except.bind, pure, Except.pure, append_assoc, append_nil, partCount]

theorem packreqString_single {name : Bytes} {session : ℤ}
    (hname : Destination (.name name)) (hmsg : msg.length < multiPart) :
    packreqString (.name name) session msg isPush =
      .ok (framed (singlePackage (.name name) (if isPush then 0 else session.toNat) msg), 0) := by
  have hlen : (singlePackage (.name name) (if isPush then 0 else session.toNat) msg).length =
      msg.length + 6 + name.length := by
    simp only [singlePackage, length_append, length_cons, length_nil, length_fillUint32]
    omega
  have hlong : ¬ (name.length < 1 ∨ name.length > 255) := by
    have := hname.1
    have := hname.2
    omega
  have hheader := @fillHeader_of_lt (msg.length + 6 + name.length)
    (by simp only [multiPart] at hmsg; omega)
  rw [framed_of_length hlen]
  simp only [packreqString, if_neg hlong, if_pos hmsg, hheader, singlePackage,
    bind, Except.bind, pure, Except.pure, append_assoc]

theorem packreqString_multi {name : Bytes} {session : ℤ}
    (hname : Destination (.name name)) (hmsg : ¬ msg.length < multiPart) :
    packreqString (.name name) session msg isPush =
      .ok (framed (beginPackage (.name name) session.toNat msg.length isPush), partCount msg) := by
  have hlen : (beginPackage (.name name) session.toNat msg.length isPush).length =
      10 + name.length := by
    simp only [beginPackage, length_append, length_cons, length_nil, length_fillUint32]
    omega
  have hlong : ¬ (name.length < 1 ∨ name.length > 255) := by
    have := hname.1
    have := hname.2
    omega
  have hheader := @fillHeader_of_lt (10 + name.length) (by omega)
  rw [framed_of_length hlen]
  simp only [packreqString, if_neg hlong, if_neg hmsg, hheader, beginPackage,
    bind, Except.bind, pure, Except.pure, append_assoc, append_nil,
    partCount]

theorem packreqMultiLoop_eq (session : ℤ) (part : ℕ) (ptr : Bytes) :
    packreqMultiLoop session part ptr =
      .ok (partFrames (partPackage 2 session.toNat) (partPackage 3 session.toNat) part ptr) := by
  induction part generalizing ptr with
  | zero => rfl
  | succ part ih =>
    by_cases hmore : ptr.length > multiPart
    · have hlen : (partPackage 2 session.toNat (ptr.take multiPart)).length = multiPart + 5 := by
        simp only [partPackage, length_append, length_cons, length_nil,
          length_fillUint32, length_take]
        omega
      have hheader := @fillHeader_of_lt (multiPart + 5) (by decide)
      simp only [packreqMultiLoop, partFrames, if_pos hmore, hheader, ih, framed_of_length hlen,
        bind, Except.bind, pure, Except.pure]
      simp only [partPackage, append_assoc]
    · have hlen : (partPackage 3 session.toNat ptr).length = ptr.length + 5 := by
        simp only [partPackage, length_append, length_cons, length_nil, length_fillUint32]
        omega
      have hheader := @fillHeader_of_lt (ptr.length + 5)
        (by simp only [multiPart] at hmore; omega)
      simp only [packreqMultiLoop, partFrames, if_neg hmore, hheader, ih,
        framed_of_length hlen, bind, Except.bind, pure, Except.pure, take_length,
        drop_length]
      simp only [partPackage, append_assoc]

namespace ClusterRequest

variable (r : ClusterRequest)

def nextSession : ℤ :=
  if r.session + 1 > 2 ^ 31 - 1 then 1 else r.session + 1

theorem nextSession_range : 1 ≤ r.nextSession ∧ r.nextSession < 2 ^ 31 := by
  have := r.session_pos
  rw [nextSession]
  split <;> omega

theorem arguments : r.msg.take (r.msg.length % 2 ^ 32) = r.msg ∧
    toInt32 r.session = r.session ∧ ¬ r.session ≤ 0 := by
  have hmsg := r.msg_lt
  have hpos := r.session_pos
  have hlt := r.session_lt
  have hnat : (r.session.toNat : ℤ) = r.session := Int.toNat_of_nonneg (by omega)
  refine ⟨take_of_length_le ?_, ?_, by omega⟩
  · rw [Nat.mod_eq_of_lt (by omega)]
  · rw [← hnat]
    exact toInt32_of_lt (by omega)

theorem packed_single (hmsg : r.msg.length < multiPart) :
    r.packed = .ok (framed (singlePackage r.addr r.wireSession r.msg), r.nextSession, none) := by
  obtain ⟨htake, hsession, hpos⟩ := r.arguments
  have hwire : r.wireSession = if r.isPush then 0 else r.session.toNat := by
    simp [wireSession, hmsg]
  have hd := r.destination
  cases haddr : r.addr with
  | number n =>
    rw [haddr] at hd
    simp only [packed, packrequest, haddr, htake, hsession, if_neg hpos,
      packreqNumber_single hd hmsg, ← hwire, bind, Except.bind, pure, Except.pure,
      nextSession, ne_eq, not_true_eq_false, if_false]
  | name s =>
    rw [haddr] at hd
    simp only [packed, packrequest, haddr, htake, hsession, if_neg hpos,
      packreqString_single hd hmsg, ← hwire, bind, Except.bind, pure, Except.pure,
      nextSession, ne_eq, not_true_eq_false, if_false]
  | other typename =>
    rw [haddr] at hd
    exact hd.elim

theorem packed_multi (hmsg : ¬ r.msg.length < multiPart) :
    r.packed = .ok (framed (beginPackage r.addr r.session.toNat r.msg.length r.isPush),
      r.nextSession, some (requestParts r.session.toNat r.msg)) := by
  obtain ⟨htake, hsession, hpos⟩ := r.arguments
  have hparts : partCount r.msg ≠ 0 := Nat.succ_ne_zero _
  have hmulti : packreqMulti r.session r.msg = .ok (requestParts r.session.toNat r.msg) :=
    packreqMultiLoop_eq ..
  have hd := r.destination
  cases haddr : r.addr with
  | number n =>
    rw [haddr] at hd
    simp only [packed, packrequest, haddr, htake, hsession, if_neg hpos,
      packreqNumber_multi hd hmsg, hmulti, bind, Except.bind, pure, Except.pure,
      nextSession, if_pos hparts]
  | name s =>
    rw [haddr] at hd
    simp only [packed, packrequest, haddr, htake, hsession, if_neg hpos,
      packreqString_multi hd hmsg, hmulti, bind, Except.bind, pure, Except.pure,
      nextSession, if_pos hparts]
  | other typename =>
    rw [haddr] at hd
    exact hd.elim

end ClusterRequest

variable {addr : ClusterAddr} {session : ℕ}

theorem singlePackage_length (hd : Destination addr) (hmsg : msg.length < multiPart) :
    (singlePackage addr session msg).length < 0x10000 := by
  simp only [multiPart] at hmsg
  cases addr with
  | number n =>
    simp [singlePackage]
    omega
  | name s =>
    have hs : s.length ≤ 255 := hd.2
    simp [singlePackage]
    omega
  | other typename => exact hd.elim

theorem beginPackage_length {session size : ℕ}
    (hd : Destination addr) : (beginPackage addr session size isPush).length < 0x10000 := by
  cases addr with
  | number n => simp [beginPackage]
  | name s =>
    have hs : s.length ≤ 255 := hd.2
    simp [beginPackage]
    omega
  | other typename => exact hd.elim

theorem partPackage_length {type : UInt8} {part : Bytes}
    (h : part.length ≤ multiPart) : (partPackage type session part).length < 0x10000 := by
  simp only [multiPart] at h
  simp [partPackage]
  omega

/-! ## What the receiver reads -/

/-- **A request in a single frame** is read with its address, its session and its bytes;
without a session it is a push. -/
theorem lunpackrequest_single (msg : Bytes)
    (hd : Destination addr) (hsession : session < 2 ^ 32) :
    lunpackrequest (singlePackage addr session msg) =
      .ok (.package (some addr) session (.buffer msg) false (session = 0)) := by
  cases addr with
  | number n =>
    set buf := singlePackage (.number n) session msg with hbuf
    have hshape : buf = [0] ++ (fillUint32 n.toNat ++ (fillUint32 session ++ msg)) := rfl
    have hnat : (n.toNat : ℤ) = n := Int.toNat_of_nonneg (le_trans (by decide) hd.1)
    have hlen : ¬ buf.length < 9 := by
      simp [hshape]
      omega
    have haddr : unpackUint32 buf 1 = n.toNat :=
      unpackUint32_at [0] _ (by have := hd.2; omega) hshape rfl
    have hsess : unpackUint32 buf 5 = session :=
      unpackUint32_at ([0] ++ fillUint32 n.toNat) msg hsession (by simp [hshape]) (by simp)
    have hmsg : buf.drop 9 = msg :=
      @drop_of_append _ ([0] ++ (fillUint32 n.toNat ++ fillUint32 session)) _ _
        (by simp [hshape]) (by simp)
    have htype : lunpackrequest buf = unpackreqNumber buf := rfl
    simp only [htype, unpackreqNumber, if_neg hlen, haddr, hsess, hmsg, hnat]
  | name s =>
    set buf := singlePackage (.name s) session msg with hbuf
    have hshape : buf = [0x80, UInt8.ofNat s.length] ++ s ++ (fillUint32 session ++ msg) := rfl
    have hs : s.length ≤ 255 := hd.2
    have hnamesz : (buf.getD 1 0).toNat = s.length := by
      simp [hshape]
      omega
    have hlen : ¬ buf.length < 2 := by
      simp [hshape]
    have hlen' : ¬ buf.length < s.length + 6 := by
      simp [hshape]
    have hname : (buf.drop 2).take s.length = s := by
      simp [hshape]
    have hsess : unpackUint32 buf (s.length + 2) = session :=
      unpackUint32_at _ _ hsession hshape (by simp)
    have hmsg : buf.drop (2 + s.length + 4) = msg :=
      @drop_of_append _ ([0x80, UInt8.ofNat s.length] ++ s ++ fillUint32 session) _ _
        (by simp [hshape]) (by simp; omega)
    have htype : lunpackrequest buf = unpackreqString buf := rfl
    simp only [htype, unpackreqString, hnamesz, if_neg hlen, if_neg hlen', hname, hsess, hmsg]
  | other typename => exact hd.elim

/-- **The first frame of a large request** is read with its address, its session, its
size and its mode. -/
theorem lunpackrequest_begin {session size : ℕ} (isPush : Bool)
    (hd : Destination addr) (hsession : session < 2 ^ 32) (hsize : size < 2 ^ 32) :
    lunpackrequest (beginPackage addr session size isPush) =
      .ok (.package (some addr) session (.size size) true isPush) := by
  cases addr with
  | number n =>
    set buf := beginPackage (.number n) session size isPush with hbuf
    have hshape : buf = [if isPush then 0x41 else 1] ++
      (fillUint32 n.toNat ++ (fillUint32 session ++ (fillUint32 size ++ []))) := rfl
    have hnat : (n.toNat : ℤ) = n := Int.toNat_of_nonneg (le_trans (by decide) hd.1)
    have hlen : ¬ buf.length ≠ 13 := by
      simp [hshape]
    have haddr : unpackUint32 buf 1 = n.toNat :=
      unpackUint32_at _ _ (by have := hd.2; omega) hshape rfl
    have hsess : unpackUint32 buf 5 = session :=
      unpackUint32_at ([if isPush then 0x41 else 1] ++ fillUint32 n.toNat) _ hsession
        (by simp [hshape]; rfl) (by simp)
    have hsz : unpackUint32 buf 9 = size :=
      unpackUint32_at ([if isPush then 0x41 else 1] ++ (fillUint32 n.toNat ++ fillUint32 session))
        [] hsize (by simp [hshape]) (by simp)
    have htype : lunpackrequest buf = unpackmreqNumber buf isPush := by
      cases isPush <;> rfl
    simp only [htype, unpackmreqNumber, if_neg hlen, haddr, hsess, hsz, hnat]
  | name s =>
    set buf := beginPackage (.name s) session size isPush with hbuf
    have hshape : buf = [if isPush then 0xc1 else 0x81, UInt8.ofNat s.length] ++ s ++
      (fillUint32 session ++ (fillUint32 size ++ [])) := rfl
    have hs : s.length ≤ 255 := hd.2
    have hnamesz : (buf.getD 1 0).toNat = s.length := by
      simp [hshape]
      omega
    have hlen : ¬ buf.length < 2 := by
      simp [hshape]
    have hlen' : ¬ buf.length < s.length + 10 := by
      simp [hshape]
    have hname : (buf.drop 2).take s.length = s := by
      simp [hshape]
    have hsess : unpackUint32 buf (s.length + 2) = session :=
      unpackUint32_at _ _ hsession hshape (by simp)
    have hsz : unpackUint32 buf (s.length + 6) = size :=
      unpackUint32_at ([if isPush then 0xc1 else 0x81, UInt8.ofNat s.length] ++ s ++
        fillUint32 session) [] hsize (by simp [hshape]) (by simp)
    have htype : lunpackrequest buf = unpackmreqString buf isPush := by
      cases isPush <;> rfl
    simp only [htype, unpackmreqString, hnamesz, if_neg hlen, if_neg hlen', hname, hsess, hsz]
  | other typename => exact hd.elim

/-- **A part** is read with its session, its bytes and whether another one follows. -/
theorem lunpackrequest_part {type : UInt8} (part : Bytes)
    (htype : type = 2 ∨ type = 3) (hsession : session < 2 ^ 32) :
    lunpackrequest (partPackage type session part) =
      .ok (.package none session (.buffer part) (type = 2) false) := by
  set buf := partPackage type session part with hbuf
  have hshape : buf = [type] ++ (fillUint32 session ++ part) := rfl
  have hlen : ¬ buf.length < 5 := by
    simp [hshape]
  have hsess : unpackUint32 buf 1 = session := unpackUint32_at _ _ hsession hshape rfl
  have hpart : buf.drop 5 = part :=
    @drop_of_append _ ([type] ++ fillUint32 session) _ _ (by simp [hshape]) (by simp)
  have hhead : buf.head? = some type := rfl
  have hunpack : lunpackrequest buf = unpackmreqPart buf := by
    rcases htype with h | h
    · subst h
      rfl
    · subst h
      rfl
  simp only [hunpack, unpackmreqPart, if_neg hlen, hsess, hpart, hhead, Option.some.injEq]

variable {a : ClusterAgent}

theorem receive_framed {package : Bytes} {unpacked : Unpacked}
    (hlen : package.length < 0x10000) (h : lunpackrequest package = .ok unpacked) :
    a.receive (framed package) = a.dispatchRequest unpacked := by
  have hread := readPackage_framed hlen []
  rw [append_nil] at hread
  simp only [ClusterAgent.receive, hread, h]

theorem dispatchRequest_last {req : LargeRequest}
    {msg : ClusterMsg} {addr : Option ClusterAddr} {bytes : Bytes}
    (hentry : a.largeRequest session = some req)
    (hconcat : lconcat (lappend req.parts msg) = .buffer bytes) :
    a.dispatchRequest (.package addr session msg false isPush) =
      (⟨Function.update a.largeRequest session none, req.tracetag⟩,
        [.request req.addr session bytes req.isPush]) := by
  simp only [dispatchRequest, hentry, hconcat, Bool.false_eq_true, if_false]

variable {r : ClusterRequest}

theorem frames_single (h : r.msg.length < multiPart) :
    r.frames = [framed (singlePackage r.addr r.wireSession r.msg)] := by
  simp [ClusterRequest.frames, r.packed_single h]

theorem frames_multi (h : ¬ r.msg.length < multiPart) :
    r.frames = framed (beginPackage r.addr r.session.toNat r.msg.length r.isPush) ::
      requestParts r.session.toNat r.msg := by
  simp [ClusterRequest.frames, r.packed_multi h]

/-! ## The stages of a request -/

/-- The stage at the agent of the request of a session: `waiting`, nothing of it has come;
`partway`, its first frame has come, and parts with the bytes before `left`; `finished`, it
has come and left no entry. -/
inductive RequestStage (a : ClusterAgent) : Stream ℕ Bytes Arrival → Prop
  | waiting (r : ClusterRequest) (hpush : a.largeRequest 0 = none)
      (hentry : a.largeRequest r.session.toNat = none) :
      RequestStage a ⟨r.session.toNat, r.frames, [r.arrival]⟩
  | partway (r : ClusterRequest) (chunks : List Bytes) (left : Bytes) (tag : Option Bytes)
      (hlarge : ¬ r.msg.length < multiPart) (hmsg : r.msg = chunks.flatten ++ left)
      (hentry : a.largeRequest r.session.toNat = some ⟨some r.addr, r.isPush, tag,
        .number r.msg.length :: chunks.map .string⟩) :
      RequestStage a ⟨r.session.toNat, requestParts r.session.toNat left, [r.arrival]⟩
  | finished (k : ℕ) (hentry : a.largeRequest k = none) : RequestStage a ⟨k, [], []⟩

/-- What the frame of a request does to the agent: the request is one stage on, and
`large_request` is written at its session only. -/
def Advances (a : ClusterAgent) (session : ℕ) (frame : Bytes) (rest : List Bytes)
    (due : List Arrival) : Prop :=
  (∃ later, due = (a.receive frame).2 ++ later ∧
    RequestStage (a.receive frame).1 ⟨session, rest, later⟩) ∧
  ∀ k, k ≠ session → (a.receive frame).1.largeRequest k = a.largeRequest k

theorem session_fits (r : ClusterRequest) : r.session.toNat < 2 ^ 32 := by
  have := r.session_lt
  omega

theorem session_ne_zero (r : ClusterRequest) : r.session.toNat ≠ 0 := by
  have := r.session_pos
  omega

theorem session_ne {r r' : ClusterRequest} (h : r.session ≠ r'.session) :
    r.session.toNat ≠ r'.session.toNat := by
  have := r.session_pos
  omega

theorem advances_single (hpush : a.largeRequest 0 = none)
    (hentry : a.largeRequest r.session.toNat = none) (hsmall : r.msg.length < multiPart) : Advances
    a r.session.toNat (framed (singlePackage r.addr r.wireSession r.msg)) [] [r.arrival] := by
  have hfits := session_fits r
  have hwire : r.wireSession < 2 ^ 32 := by
    rw [ClusterRequest.wireSession]
    split <;> omega
  have hnone : a.largeRequest r.wireSession = none := by
    rw [ClusterRequest.wireSession]
    split
    · exact hpush
    · exact hentry
  have hmode : decide (r.wireSession = 0) = r.isPush := by
    have hpos := r.session_pos
    cases hp : r.isPush with
    | true => simp [ClusterRequest.wireSession, hp, hsmall]
    | false =>
      simp [ClusterRequest.wireSession, hp]
      omega
  have hreceive := @receive_framed a _ _ (singlePackage_length r.destination hsmall)
    (lunpackrequest_single r.msg r.destination hwire)
  have heq : a.receive (framed (singlePackage r.addr r.wireSession r.msg)) = (a, [r.arrival]) := by
    simp only [hreceive, dispatchRequest, hnone, hmode, Bool.false_eq_true,
      if_false, ClusterRequest.arrival]
  rw [Advances, heq]
  exact ⟨⟨[], by simp, .finished _ hentry⟩, fun _ _ => rfl⟩

theorem advances_begin
    (hentry : a.largeRequest r.session.toNat = none) (hlarge : ¬ r.msg.length < multiPart) :
    Advances a r.session.toNat (framed (beginPackage r.addr r.session.toNat r.msg.length r.isPush))
      (requestParts r.session.toNat r.msg) [r.arrival] := by
  have hsize : r.msg.length < 2 ^ 32 := by
    have := r.msg_lt
    omega
  have hreceive := @receive_framed a _ _ (beginPackage_length r.destination)
    (lunpackrequest_begin r.isPush r.destination (session_fits r) hsize)
  rw [Advances, hreceive]
  refine ⟨⟨[r.arrival], by simp [dispatchRequest], ?_⟩, ?_⟩
  · apply RequestStage.partway r [] r.msg a.tracetag hlarge (by simp)
    simp [dispatchRequest, hentry, lappend]
  · intro k hk
    simp [dispatchRequest, hk]

theorem advances_part {chunks : List Bytes}
    {left : Bytes} {tag : Option Bytes} (hlarge : ¬ r.msg.length < multiPart)
    (hmsg : r.msg = chunks.flatten ++ left)
    (hentry : a.largeRequest r.session.toNat = some ⟨some r.addr, r.isPush, tag,
      .number r.msg.length :: chunks.map .string⟩) :
    Advances a r.session.toNat (framed (partPackage 2 r.session.toNat (left.take multiPart)))
      (requestParts r.session.toNat (left.drop multiPart)) [r.arrival] := by
  have hreceive := @receive_framed a _ _ (partPackage_length (length_take_le _ _))
    (lunpackrequest_part (left.take multiPart) (Or.inl rfl) (session_fits r))
  rw [Advances, hreceive]
  refine ⟨⟨[r.arrival], by simp [dispatchRequest], ?_⟩, ?_⟩
  · apply RequestStage.partway r (chunks ++ [left.take multiPart]) (left.drop multiPart) tag
      hlarge
    · rw [hmsg, flatten_append, flatten_singleton, append_assoc, take_append_drop]
    · simp [dispatchRequest, hentry, lappend]
  · intro k hk
    simp [dispatchRequest, hk]

theorem advances_last {chunks : List Bytes}
    {left : Bytes} {tag : Option Bytes} (hlarge : ¬ r.msg.length < multiPart)
    (hmsg : r.msg = chunks.flatten ++ left)
    (hentry : a.largeRequest r.session.toNat = some ⟨some r.addr, r.isPush, tag,
      .number r.msg.length :: chunks.map .string⟩)
    (hlast : ¬ left.length > multiPart) :
    Advances a r.session.toNat (framed (partPackage 3 r.session.toNat left)) [] [r.arrival] := by
  have hreceive := @receive_framed a _ _ (partPackage_length (not_lt.1 hlast))
    (lunpackrequest_part left (Or.inr rfl) (session_fits r))
  have hflat : (chunks ++ [left]).flatten = r.msg := by
    rw [hmsg, flatten_append, flatten_singleton]
  have hconcat : lconcat (lappend (.number r.msg.length :: chunks.map .string)
      (.buffer left)) = .buffer r.msg := by
    have hstrings := @lconcat_strings (chunks ++ [left]) (by rw [hflat]; exact r.msg_lt)
    rw [hflat, map_append] at hstrings
    exact hstrings
  have hwire : r.wireSession = r.session.toNat := by
    simp [ClusterRequest.wireSession, hlarge]
  have hpadding : decide ((3 : UInt8) = 2) = false := by decide
  rw [hpadding, dispatchRequest_last hentry hconcat] at hreceive
  rw [Advances, hreceive]
  refine ⟨⟨[], ?_, .finished _ ?_⟩, ?_⟩
  · rw [ClusterRequest.arrival, hwire, append_nil]
  · exact Function.update_self ..
  · intro k hk
    exact Function.update_of_ne hk ..

/-- **One frame.**  Every frame of a request advances the request, whose session is not 0. -/
theorem receive_stage {frame : Bytes} {rest : List Bytes}
    {due : List Arrival} (h : RequestStage a ⟨session, frame :: rest, due⟩) :
    session ≠ 0 ∧ Advances a session frame rest due := by
  generalize hframes : frame :: rest = frames at h
  cases h with
  | waiting r hpush hentry =>
    refine ⟨session_ne_zero r, ?_⟩
    by_cases hsmall : r.msg.length < multiPart
    · rw [frames_single hsmall] at hframes
      injection hframes with hframe hrest
      rw [hframe, hrest]
      exact advances_single hpush hentry hsmall
    · rw [frames_multi hsmall] at hframes
      injection hframes with hframe hrest
      rw [hframe, hrest]
      exact advances_begin hentry hsmall
  | partway r chunks left tag hlarge hmsg hentry =>
    refine ⟨session_ne_zero r, ?_⟩
    by_cases hmore : left.length > multiPart
    · rw [requestParts, partsOf_more hmore] at hframes
      injection hframes with hframe hrest
      rw [hframe, hrest]
      exact advances_part hlarge hmsg hentry
    · rw [requestParts, partsOf_last hmore] at hframes
      injection hframes with hframe hrest
      rw [hframe, hrest]
      exact advances_last hlarge hmsg hentry hmore
  | finished _ _ => cases hframes

theorem requests_separate : Separate ClusterAgent.receive Ne RequestStage where
  ended := by
    intro a session due h
    generalize hframes : ([] : List Bytes) = frames at h
    cases h with
    | waiting r _ _ =>
      by_cases hsmall : r.msg.length < multiPart
      · rw [frames_single hsmall] at hframes
        cases hframes
      · rw [frames_multi hsmall] at hframes
        cases hframes
    | partway r _ left _ _ _ _ =>
      by_cases hmore : left.length > multiPart
      · rw [requestParts, partsOf_more hmore] at hframes
        cases hframes
      · rw [requestParts, partsOf_last hmore] at hframes
        cases hframes
    | finished _ _ => exact Eq.refl []
  moved := fun h => (receive_stage h).2.1
  kept := by
    intro a session frame rest due t hapart hstage ht
    obtain ⟨hzero, -, hkeep⟩ := receive_stage hstage
    cases ht with
    | waiting r hpush hentry =>
      apply RequestStage.waiting
      · rw [hkeep _ hzero.symm, hpush]
      · rw [hkeep _ hapart.symm, hentry]
    | partway r chunks left tag hlarge hmsg hentry =>
      apply RequestStage.partway r chunks left tag hlarge hmsg
      rw [hkeep _ hapart.symm, hentry]
    | finished k hentry =>
      apply RequestStage.finished
      rw [hkeep _ hapart.symm, hentry]

theorem RequestStage.entry {k : ℕ} (h : RequestStage a ⟨k, [], []⟩) : a.largeRequest k = none := by
  generalize hstream : (⟨k, [], []⟩ : Stream ℕ Bytes Arrival) = stream at h
  cases h with
  | waiting _ _ _ =>
    injection hstream with _ _ hdue
    cases hdue
  | partway _ _ _ _ _ _ _ =>
    injection hstream with _ _ hdue
    cases hdue
  | finished _ hentry =>
    injection hstream with hk
    rw [hk, hentry]

/-- **Requests survive the wire.**  Take any number of requests whose sessions differ, and
any merge of their frames on one connection.  Each of them is packed, and the session for
the next one is in range.  An agent without large requests hands on every request once,
with its destination, its session (0 for a push of a single frame), its bytes and its
mode, and nothing else, and is again without large requests. -/
theorem requests_survive (requests : List ClusterRequest) (a : ClusterAgent)
    (frames : List Bytes) (hdistinct : requests.Pairwise fun r r' => r.session ≠ r'.session)
    (hempty : a.largeRequest = fun _ => none)
    (hinter : Interleaves (requests.map ClusterRequest.frames) frames) :
    (∀ r ∈ requests, ∃ request next padding, r.packed = .ok (request, next, padding) ∧
      r.frames = request :: padding.getD [] ∧ 1 ≤ next ∧ next < 2 ^ 31) ∧
    (handleAll ClusterAgent.receive a frames).2.Perm (requests.map ClusterRequest.arrival) ∧
    (handleAll ClusterAgent.receive a frames).1.largeRequest = fun _ => none := by
  set streams := requests.map fun r =>
    (⟨r.session.toNat, r.frames, [r.arrival]⟩ : Stream ℕ Bytes Arrival) with hstreams
  have hrests : streams.map Stream.rest = requests.map ClusterRequest.frames := by
    simp [hstreams]
  have hdue : streams.flatMap Stream.due = requests.map ClusterRequest.arrival := by
    rw [hstreams, flatMap_map, map_eq_flatMap]
  have hstage : ∀ t ∈ streams, RequestStage a t := by
    intro t ht
    obtain ⟨r, _, rfl⟩ := mem_map.1 ht
    exact .waiting r (by rw [hempty]) (by rw [hempty])
  have hapart : streams.Pairwise fun t t' => t.key ≠ t'.key := by
    rw [hstreams, pairwise_map]
    exact hdistinct.imp session_ne
  obtain ⟨hperm, hends, hothers⟩ := requests_separate.handled Ne.symm (hrests ▸ hinter)
    hapart hstage
  refine ⟨?_, hdue ▸ hperm, ?_⟩
  · intro r _
    by_cases hsmall : r.msg.length < multiPart
    · have hpacked := r.packed_single hsmall
      exact ⟨_, _, _, hpacked, by simp [ClusterRequest.frames, hpacked], r.nextSession_range⟩
    · have hpacked := r.packed_multi hsmall
      exact ⟨_, _, _, hpacked, by simp [ClusterRequest.frames, hpacked], r.nextSession_range⟩
  · funext k
    by_cases hk : ∃ t ∈ streams, t.key = k
    · obtain ⟨t, ht, hkey⟩ := hk
      exact (hkey ▸ hends t ht).entry
    · have hover : RequestStage a ⟨k, [], []⟩ := .finished k (by rw [hempty])
      exact (hothers _ (fun t ht hkey => hk ⟨t, ht, hkey⟩) hover).entry

/-- A push of two bytes to a name comes between the frames of a request of 32 KiB. -/
theorem requests_survive_between :
    (handleAll ClusterAgent.receive ⟨fun _ => none, none⟩
      (framed (beginPackage (.number 5) 1 multiPart false) ::
        framed (singlePackage (.name [0x40, 0x61]) 0 [1, 2]) ::
        requestParts 1 (replicate multiPart 7))).2.Perm
      [.request (some (.number 5)) 1 (replicate multiPart 7) false,
        .request (some (.name [0x40, 0x61])) 0 [1, 2] true] := by
  have htwo : 2 < multiPart := by decide
  have hbound : multiPart < 2147483648 := by decide
  let large : ClusterRequest :=
    ⟨.number 5, 1, replicate multiPart 7, false, by simp [Destination], by decide,
      by decide, by simp [hbound]⟩
  let small : ClusterRequest :=
    ⟨.name [0x40, 0x61], 2, [1, 2], true, by simp [Destination], by decide, by decide, by simp⟩
  have hlarge : large.frames = framed (beginPackage (.number 5) 1 multiPart false) ::
      requestParts 1 (replicate multiPart 7) := by
    have h := @frames_multi large (by simp [large])
    simpa [large] using h
  have hsmall : small.frames = [framed (singlePackage (.name [0x40, 0x61]) 0 [1, 2])] := by
    have h := @frames_single small (by simp [small, htwo])
    simpa [small, ClusterRequest.wireSession, htwo] using h
  have hinter : Interleaves ([large, small].map ClusterRequest.frames)
      (framed (beginPackage (.number 5) 1 multiPart false) ::
        framed (singlePackage (.name [0x40, 0x61]) 0 [1, 2]) ::
        requestParts 1 (replicate multiPart 7)) := by
    rw [map_cons, map_cons, map_nil, hlarge, hsmall]
    apply @Interleaves.cons _ [] [_]
    apply @Interleaves.cons _ [_] []
    have hrest := interleaves_flatten [requestParts 1 (replicate multiPart 7), []]
    simpa using hrest
  have hsurvive := (requests_survive [large, small] ⟨fun _ => none, none⟩ _
    (by simp [large, small]) (by simp) hinter).2.1
  simpa [ClusterRequest.arrival, ClusterRequest.wireSession, large, small, htwo] using hsurvive

end Skynet.Analysis
