import Skynet.Analysis.ClusterFrames
import Skynet.Library.Interleaving
import Skynet.Model.SocketChannel

/-!
# Cluster responses survive the wire

What `lunpackresponse` reads in the frames that `lpackresponse` makes, and what becomes of
any number of exchanges on one channel, merged in any way: each coroutine sends a request
and waits, the frames of the response come in, the coroutine is resumed and sends its next
request.  Every coroutine gets its response once, and nothing of it is left.
-/

namespace Skynet.Analysis

open Library Model List Table Or

/-! ## Responses -/

structure ClusterResponse where
  session : ℕ
  ok : Bool
  msg : Bytes
  session_lt : session < 2 ^ 32
  msg_lt : ok = true → msg.length < 2 ^ 31

def responsePackage (type : UInt8) (session : ℕ) (data : Bytes) : Bytes :=
  fillUint32 session ++ ([type] ++ data)

def responseParts (session : ℕ) (left : Bytes) : List Bytes :=
  partsOf (responsePackage 3 session) (responsePackage 4 session) left

namespace ClusterResponse

def packed (r : ClusterResponse) : Except ClusterError PackedResponse :=
  lpackresponse r.session r.ok r.msg

def frames (r : ClusterResponse) : List Bytes :=
  match r.packed with
  | .ok packed => packed.written
  | .error _ => []

/-- What the coroutine that waits makes of the response: it returns the bytes, or it
reports the error with at most `multiPart` bytes of its text. -/
def reply (r : ClusterResponse) : SenderReply :=
  if r.ok then .ret (some r.msg)
  else .failed (some (.value (.string (r.msg.take multiPart))))

def Large (r : ClusterResponse) : Prop := r.ok = true ∧ r.msg.length > multiPart

end ClusterResponse

/-! ## Packing -/

theorem responsePackage_length {type : UInt8} {session : ℕ} {data : Bytes}
    (h : data.length ≤ multiPart) : (responsePackage type session data).length < 0x10000 := by
  simp only [multiPart] at h
  simp [responsePackage]
  omega

theorem length_responsePackage (type : UInt8) (session : ℕ) (data : Bytes) :
    (responsePackage type session data).length = data.length + 5 := by
  simp [responsePackage]
  omega

theorem lpackresponseLoop_eq (session : ℕ) (part : ℕ) (ptr : Bytes) :
    lpackresponseLoop session part ptr =
      .ok (partFrames (responsePackage 3 session) (responsePackage 4 session) part ptr) := by
  induction part generalizing ptr with
  | zero => rfl
  | succ part ih =>
    by_cases hmore : ptr.length > multiPart
    · have hlen : (responsePackage 3 session (ptr.take multiPart)).length = multiPart + 5 := by
        rw [length_responsePackage, length_take, Nat.min_eq_left (le_of_lt hmore)]
      have hheader := @fillHeader_of_lt (multiPart + 5) (by decide)
      simp only [lpackresponseLoop, partFrames, if_pos hmore, hheader, ih,
        framed_of_length hlen, bind, Except.bind, pure, Except.pure]
      simp only [responsePackage, append_assoc]
    · have hlen := length_responsePackage 4 session ptr
      have hheader := @fillHeader_of_lt (ptr.length + 5)
        (by simp only [multiPart] at hmore; omega)
      simp only [lpackresponseLoop, partFrames, if_neg hmore, hheader, ih,
        framed_of_length hlen, bind, Except.bind, pure, Except.pure, take_length,
        drop_length]
      simp only [responsePackage, append_assoc]

namespace ClusterResponse

variable {r : ClusterResponse}

theorem session_cast (r : ClusterResponse) : ((r.session : ℤ) % 2 ^ 32).toNat = r.session := by
  have := r.session_lt
  omega

theorem packed_single (h : ¬ r.Large) :
    r.packed = .ok (.string (framed (responsePackage (if r.ok then 1 else 0) r.session
      (r.msg.take multiPart)))) := by
  have hlen : (responsePackage (if r.ok then 1 else 0) r.session
      (r.msg.take multiPart)).length =
      (if r.msg.length > multiPart then multiPart else r.msg.length) + 5 := by
    rw [length_responsePackage, length_take]
    split <;> omega
  have hheader := @fillHeader_of_lt
    ((if r.msg.length > multiPart then multiPart else r.msg.length) + 5)
    (by simp only [multiPart]; split <;> omega)
  have htake : r.msg.take (if r.msg.length > multiPart then multiPart else r.msg.length) =
      r.msg.take multiPart := by
    split
    · rfl
    · rw [take_length, take_of_length_le (by omega)]
  rw [framed_of_length hlen]
  simp only [packed, lpackresponse, r.session_cast, hheader, htake, bind, Except.bind, pure,
    Except.pure, responsePackage, append_assoc]
  exact if_neg h

theorem packed_large (h : r.Large) :
    r.packed = .ok (.table (framed (responsePackage 2 r.session (fillUint32 r.msg.length)) ::
      responseParts r.session r.msg)) := by
  have hheader := @fillHeader_of_lt 9 (by decide)
  simp only [packed, lpackresponse, r.session_cast, hheader, lpackresponseLoop_eq, bind,
    Except.bind, pure, Except.pure, responsePackage, append_assoc]
  exact if_pos h

theorem frames_single (h : ¬ r.Large) :
    r.frames = [framed (responsePackage (if r.ok then 1 else 0) r.session
      (r.msg.take multiPart))] := by
  simp [frames, packed_single h, PackedResponse.written]

theorem frames_large (h : r.Large) :
    r.frames = framed (responsePackage 2 r.session (fillUint32 r.msg.length)) ::
      responseParts r.session r.msg := by
  simp [frames, packed_large h, PackedResponse.written]

theorem packed_ok (r : ClusterResponse) :
    ∃ packed, r.packed = .ok packed ∧ r.frames = packed.written := by
  by_cases h : r.Large
  · exact ⟨_, packed_large h, by rw [frames, packed_large h]⟩
  · exact ⟨_, packed_single h, by rw [frames, packed_single h]⟩

end ClusterResponse

/-! ## What the sender reads -/

theorem getD_responsePackage (type : UInt8) (session : ℕ) (data : Bytes) :
    (responsePackage type session data).getD 4 0 = type := by
  rfl

theorem lunpackresponse_package {type : UInt8} {session : ℕ} (data : Bytes)
    (hsession : session < 2 ^ 32) (htype : type = 0 ∨ type = 1 ∨ type = 3 ∨ type = 4) :
    lunpackresponse (responsePackage type session data) =
      some ⟨session, type ≠ 0, .string data, type = 3⟩ := by
  set buf := responsePackage type session data with hbuf
  have hshape : buf = [] ++ (fillUint32 session ++ ([type] ++ data)) := rfl
  have hlen : ¬ buf.length < 5 := by
    rw [hbuf, length_responsePackage]
    omega
  have hsess : unpackUint32 buf 0 = session := unpackUint32_at [] _ hsession hshape rfl
  have hget : buf.getD 4 0 = type := getD_responsePackage ..
  have hdata : buf.drop 5 = data := @drop_of_append _ (fillUint32 session ++ [type]) _ _
      (by simp [hbuf, responsePackage]) (by simp)
  simp only [lunpackresponse, if_neg hlen, hsess, hget, hdata]
  rcases htype with h | h | h | h
  all_goals
    subst h
    rfl

theorem lunpackresponse_begin {session size : ℕ} (hsession : session < 2 ^ 32)
    (hsize : size < 2 ^ 32) :
    lunpackresponse (responsePackage 2 session (fillUint32 size)) =
      some ⟨session, true, .number size, true⟩ := by
  set buf := responsePackage 2 session (fillUint32 size) with hbuf
  have hshape : buf = [] ++ (fillUint32 session ++ ([2] ++ fillUint32 size)) := rfl
  have hnine : ¬ buf.length ≠ 9 := by
    rw [hbuf, length_responsePackage, length_fillUint32]
    decide
  have hlen : ¬ buf.length < 5 := by omega
  have hsess : unpackUint32 buf 0 = session := unpackUint32_at [] _ hsession hshape rfl
  have hget : (buf.getD 4 0).toNat = 2 := by
    rfl
  have hsz : unpackUint32 buf 5 = size :=
    unpackUint32_at (fillUint32 session ++ [2]) [] hsize (by simp [hbuf, responsePackage])
      (by simp)
  simp only [lunpackresponse, if_neg hlen, hsess, hget, hsz, if_neg hnine]

theorem readResponse_framed {package : Bytes} (h : package.length < 0x10000) :
    SocketChannel.readResponse (framed package) = lunpackresponse package := by
  have hread := readPackage_framed h []
  rw [append_nil] at hread
  simp only [SocketChannel.readResponse, hread]

/-! ## The stages of a coroutine -/

/-- What happens in the exchange that ends with a response: the request, the frames of
the response, and the coroutine goes on. -/
def exchange (co : ℕ) (r : ClusterResponse) : List SocketChannel.Event :=
  .request r.session co :: (r.frames.map .frame ++ [.resumed co])

def ClusterResponse.due (r : ClusterResponse) : ℕ × SenderReply := (r.session, r.reply)

/-- How much of a response has come: what is in `__result_data` of it, and its frames that
are still to come. -/
inductive Comes (r : ClusterResponse) : Option ResultData → List Bytes → Prop
  | nothing : Comes r none r.frames
  | partway (chunks : List Bytes) (left : Bytes) (hlarge : r.Large)
      (hmsg : r.msg = chunks.flatten ++ left) :
      Comes r (some (.table (.number r.msg.length :: chunks.map .string)))
        (responseParts r.session left)

structure Idle (c : SocketChannel) (co : ℕ) : Prop where
  waiting : c.waiting.get co = none
  result : c.result.get co = none
  resultData : c.resultData.get co = none
  woken : co ∉ c.woken

structure Awaits (c : SocketChannel) (co session : ℕ) (data : Option ResultData) : Prop where
  thread : c.thread.get session = some co
  waiting : c.waiting.get co = some session
  result : c.result.get co = none
  resultData : c.resultData.get co = data
  woken : co ∉ c.woken

structure Answered (c : SocketChannel) (co session : ℕ) (reply : SenderReply) : Prop where
  waiting : c.waiting.get co = some session
  result : SocketChannel.reply (c.result.get co) (c.resultData.get co) = reply
  woken : co ∈ c.woken

/-- The stage at the channel of a coroutine that uses these sessions. -/
inductive ResponseStage (c : SocketChannel) :
    Stream (ℕ × List ℕ) SocketChannel.Event (ℕ × SenderReply) → Prop
  | idle (co : ℕ) (sessions : List ℕ) (rs : List ClusterResponse) (hsock : c.sock = true)
      (hrs : ∀ r ∈ rs, r.session ∈ sessions) (hidle : Idle c co)
      (hthread : ∀ s ∈ sessions, c.thread.get s = none) :
      ResponseStage c ⟨(co, sessions), rs.flatMap (exchange co), rs.map ClusterResponse.due⟩
  | awaits (co : ℕ) (sessions : List ℕ) (r : ClusterResponse) (rs : List ClusterResponse)
      (data : Option ResultData) (frames : List Bytes) (hsock : c.sock = true)
      (hrs : ∀ r' ∈ r :: rs, r'.session ∈ sessions) (hcomes : Comes r data frames)
      (hawaits : Awaits c co r.session data)
      (hthread : ∀ s ∈ sessions, s ≠ r.session → c.thread.get s = none) :
      ResponseStage c ⟨(co, sessions), frames.map .frame ++ .resumed co :: rs.flatMap (exchange co),
        r.due :: rs.map ClusterResponse.due⟩
  | answered (co : ℕ) (sessions : List ℕ) (r : ClusterResponse) (rs : List ClusterResponse)
      (hsock : c.sock = true) (hrs : ∀ r' ∈ rs, r'.session ∈ sessions)
      (hanswered : Answered c co r.session r.reply)
      (hthread : ∀ s ∈ sessions, c.thread.get s = none) :
      ResponseStage c ⟨(co, sessions), .resumed co :: rs.flatMap (exchange co),
        r.due :: rs.map ClusterResponse.due⟩

/-- A step in the exchange of one coroutine leaves the other coroutines, and the sessions
that it does not use. -/
structure Local (co : ℕ) (sessions : List ℕ) (c c' : SocketChannel) : Prop where
  sock : c'.sock = c.sock
  thread : ∀ s, s ∉ sessions → c'.thread.get s = c.thread.get s
  waiting : ∀ co', co' ≠ co → c'.waiting.get co' = c.waiting.get co'
  result : ∀ co', co' ≠ co → c'.result.get co' = c.result.get co'
  resultData : ∀ co', co' ≠ co → c'.resultData.get co' = c.resultData.get co'
  woken : ∀ co', co' ≠ co → (co' ∈ c'.woken ↔ co' ∈ c.woken)

def ApartChannels (k k' : ℕ × List ℕ) : Prop := k.1 ≠ k'.1 ∧ List.Disjoint k.2 k'.2

theorem ResponseStage.kept {c c' : SocketChannel} {k : ℕ × List ℕ}
    {t : Stream (ℕ × List ℕ) SocketChannel.Event (ℕ × SenderReply)} (hlocal : Local k.1 k.2 c c')
    (hapart : ApartChannels k t.key) (h : ResponseStage c t) : ResponseStage c' t := by
  cases h with
  | idle co sessions rs hsock hrs hidle hthread =>
    have hco : co ≠ k.1 := Ne.symm hapart.1
    apply ResponseStage.idle co sessions rs (by rw [hlocal.sock, hsock]) hrs
    · constructor
      · rw [hlocal.waiting co hco, hidle.waiting]
      · rw [hlocal.result co hco, hidle.result]
      · rw [hlocal.resultData co hco, hidle.resultData]
      · rw [hlocal.woken co hco]
        exact hidle.woken
    · intro s hs
      rw [hlocal.thread s (fun hk => hapart.2 hk hs), hthread s hs]
  | awaits co sessions r rs data frames hsock hrs hcomes hawaits hthread =>
    have hco : co ≠ k.1 := Ne.symm hapart.1
    have hsession : r.session ∈ sessions := hrs r (by simp)
    apply ResponseStage.awaits co sessions r rs data frames (by rw [hlocal.sock, hsock]) hrs
      hcomes
    · constructor
      · rw [hlocal.thread _ (fun hk => hapart.2 hk hsession), hawaits.thread]
      · rw [hlocal.waiting co hco, hawaits.waiting]
      · rw [hlocal.result co hco, hawaits.result]
      · rw [hlocal.resultData co hco, hawaits.resultData]
      · rw [hlocal.woken co hco]
        exact hawaits.woken
    · intro s hs hne
      rw [hlocal.thread s (fun hk => hapart.2 hk hs), hthread s hs hne]
  | answered co sessions r rs hsock hrs hanswered hthread =>
    have hco : co ≠ k.1 := Ne.symm hapart.1
    apply ResponseStage.answered co sessions r rs (by rw [hlocal.sock, hsock]) hrs
    · constructor
      · rw [hlocal.waiting co hco, hanswered.waiting]
      · rw [hlocal.result co hco, hlocal.resultData co hco, hanswered.result]
      · rw [hlocal.woken co hco]
        exact hanswered.woken
    · intro s hs
      rw [hlocal.thread s (fun hk => hapart.2 hk hs), hthread s hs]

/-! ## The frames of a response -/

/-- What a step does in the exchange of a coroutine: the coroutine is one stage on, and
the step is local to it. -/
def Proceeds (c : SocketChannel) (co : ℕ) (sessions : List ℕ) (e : SocketChannel.Event)
    (rest : List SocketChannel.Event) (due : List (ℕ × SenderReply)) : Prop :=
  (∃ later, due = (c.step e).2 ++ later ∧
    ResponseStage (c.step e).1 ⟨(co, sessions), rest, later⟩) ∧
  Local co sessions c (c.step e).1

variable {data : Option ResultData} {c : SocketChannel}

theorem dispatchBySession_padding {co session : ℕ}
    {parts : List LargePart} {part : LargePart}
    (h : Awaits c co session data)
    (hdata : data = none ∧ parts = [] ∨ data = some (.table parts)) :
    c.dispatchBySession (some ⟨session, true, part, true⟩) =
      { c with resultData := c.resultData.put co (some (.table (parts ++ [part]))) } := by
  rcases hdata with ⟨hnone, hparts⟩ | hsome
  · have hget := h.resultData.trans hnone
    simp [SocketChannel.dispatchBySession, h.thread, hget, hparts]
  · have hget := h.resultData.trans hsome
    simp [SocketChannel.dispatchBySession, h.thread, hget]

def lastData (ok : Bool) (data : Option ResultData) (part : LargePart) : ResultData :=
  match ok, data with
  | true, some (.table parts) => .table (parts ++ [part])
  | _, _ => .value part

theorem dispatchBySession_last {co session : ℕ} {ok : Bool}
    {part : LargePart} (h : Awaits c co session data) :
    c.dispatchBySession (some ⟨session, ok, part, false⟩) = { c with
        thread := c.thread.put session none
        result := c.result.put co (some (.ok ok))
        resultData := c.resultData.put co (some (lastData ok data part))
        woken := c.woken ++ [co] } := by
  simp only [SocketChannel.dispatchBySession, h.thread, h.resultData, Bool.false_eq_true,
    false_and, if_false, SocketChannel.wakeup, h.waiting, Option.isSome_some, if_true]
  rfl

theorem reply_concat {parts : List LargePart} {bytes : Bytes} (h : lconcat parts = .buffer bytes) :
    SocketChannel.reply (some (.ok true)) (some (.table parts)) = .ret (some bytes) := by
  simp only [SocketChannel.reply, h]

theorem not_comes_nil {r : ClusterResponse} : ¬ Comes r data [] := by
  intro h
  generalize hframes : ([] : List Bytes) = frames at h
  cases h with
  | nothing =>
    by_cases hlarge : r.Large
    · rw [ClusterResponse.frames_large hlarge] at hframes
      cases hframes
    · rw [ClusterResponse.frames_single hlarge] at hframes
      cases hframes
  | partway chunks left _ _ =>
    by_cases hmore : left.length > multiPart
    · rw [responseParts, partsOf_more hmore] at hframes
      cases hframes
    · rw [responseParts, partsOf_last hmore] at hframes
      cases hframes

section Frames

variable {c : SocketChannel} {co : ℕ} {sessions : List ℕ} {r : ClusterResponse}
  {rs : List ClusterResponse} {frame : Bytes} {frames : List Bytes} {part : LargePart}
  {data : Option ResultData}

theorem proceeds_padding {parts : List LargePart} (hsock : c.sock = true)
    (hrs : ∀ r' ∈ r :: rs, r'.session ∈ sessions) (hawaits : Awaits c co r.session data)
    (hthread : ∀ s ∈ sessions, s ≠ r.session → c.thread.get s = none)
    (hread : SocketChannel.readResponse frame = some ⟨r.session, true, part, true⟩)
    (hdata : data = none ∧ parts = [] ∨ data = some (.table parts))
    (hcomes : Comes r (some (.table (parts ++ [part]))) frames) :
    Proceeds c co sessions (.frame frame)
      (frames.map .frame ++ .resumed co :: rs.flatMap (exchange co))
      (r.due :: rs.map ClusterResponse.due) := by
  have hstep : (c.step (.frame frame)).1 =
      { c with resultData := c.resultData.put co (some (.table (parts ++ [part]))) } := by
    simp only [SocketChannel.step, hsock, if_true, hread, dispatchBySession_padding hawaits hdata]
  rw [Proceeds, hstep]
  refine ⟨⟨_, nil_append _, ?_⟩, ?_⟩
  · refine @ResponseStage.awaits { c with resultData := _ } co sessions r rs _ frames hsock hrs
      hcomes ?_ hthread
    exact ⟨hawaits.thread, hawaits.waiting, hawaits.result, get_put_self .., hawaits.woken⟩
  · constructor
    · exact Eq.refl c.sock
    · exact fun _ _ => Eq.refl _
    · exact fun _ _ => Eq.refl _
    · exact fun _ _ => Eq.refl _
    · intro co' hco
      rw [get_put, if_neg hco]
    · exact fun _ _ => Iff.refl _

theorem proceeds_last {ok : Bool} (hsock : c.sock = true)
    (hrs : ∀ r' ∈ r :: rs, r'.session ∈ sessions) (hawaits : Awaits c co r.session data)
    (hthread : ∀ s ∈ sessions, s ≠ r.session → c.thread.get s = none)
    (hread : SocketChannel.readResponse frame = some ⟨r.session, ok, part, false⟩)
    (hreply : SocketChannel.reply (some (.ok ok)) (some (lastData ok data part)) = r.reply) :
    Proceeds c co sessions (.frame frame)
      (.resumed co :: rs.flatMap (exchange co)) (r.due :: rs.map ClusterResponse.due) := by
  have hstep : (c.step (.frame frame)).1 = { c with
        thread := c.thread.put r.session none
        result := c.result.put co (some (.ok ok))
        resultData := c.resultData.put co (some (lastData ok data part))
        woken := c.woken ++ [co] } := by
    simp only [SocketChannel.step, hsock, if_true, hread, dispatchBySession_last hawaits]
  have hsession : r.session ∈ sessions := hrs r (by simp)
  rw [Proceeds, hstep]
  refine ⟨⟨_, nil_append _, ?_⟩, ?_⟩
  · refine @ResponseStage.answered
      { c with thread := _, result := _, resultData := _, woken := _ } co sessions r rs hsock
      (fun r' hr' => hrs r' (by simp [hr'])) ?_ ?_
    · constructor
      · exact hawaits.waiting
      · simp only [get_put_self]
        exact hreply
      · simp
    · intro s hs
      by_cases hs' : s = r.session
      · rw [hs', get_put_self]
      · rw [get_put, if_neg hs', hthread s hs hs']
  · constructor
    · exact Eq.refl c.sock
    · intro s hs
      have hne : s ≠ r.session := fun h => hs (h ▸ hsession)
      rw [get_put, if_neg hne]
    · exact fun _ _ => Eq.refl _
    · intro co' hco
      rw [get_put, if_neg hco]
    · intro co' hco
      rw [get_put, if_neg hco]
    · intro co' hco
      simp [hco]

/-- **One frame.**  Every frame of the response a coroutine waits for brings its exchange
one stage on. -/
theorem proceeds_frame (hsock : c.sock = true)
    (hrs : ∀ r' ∈ r :: rs, r'.session ∈ sessions) (hawaits : Awaits c co r.session data)
    (hthread : ∀ s ∈ sessions, s ≠ r.session → c.thread.get s = none)
    (hcomes : Comes r data (frame :: frames)) :
    Proceeds c co sessions (.frame frame)
      (frames.map .frame ++ .resumed co :: rs.flatMap (exchange co))
      (r.due :: rs.map ClusterResponse.due) := by
  generalize hframes : frame :: frames = all at hcomes
  cases hcomes with
  | nothing =>
    by_cases hlarge : r.Large
    · rw [ClusterResponse.frames_large hlarge] at hframes
      injection hframes with hframe hrest
      rw [hframe, hrest]
      have hsize : r.msg.length < 2 ^ 32 := by
        have := r.msg_lt hlarge.1
        omega
      have hfour : (fillUint32 r.msg.length).length ≤ multiPart := by
        rw [length_fillUint32]
        decide
      have hread := (readResponse_framed (responsePackage_length hfour)).trans
        (lunpackresponse_begin r.session_lt hsize)
      exact proceeds_padding hsock hrs hawaits hthread hread (inl ⟨rfl, rfl⟩)
        (.partway [] r.msg hlarge (by simp))
    · rw [ClusterResponse.frames_single hlarge] at hframes
      injection hframes with hframe hrest
      rw [hframe, hrest]
      have hshort : (r.msg.take multiPart).length ≤ multiPart := length_take_le ..
      have hread := readResponse_framed (@responsePackage_length (if r.ok then 1 else 0)
        r.session _ hshort)
      cases hok : r.ok with
      | true =>
        have hmsg : r.msg.take multiPart = r.msg := by
          apply take_of_length_le
          by_contra hlong
          exact hlarge ⟨hok, by omega⟩
        rw [hok, if_pos rfl, hmsg, lunpackresponse_package r.msg r.session_lt
          (inr (inl rfl))] at hread
        rw [if_pos rfl, hmsg]
        apply proceeds_last hsock hrs hawaits hthread hread
        simp [lastData, SocketChannel.reply, ClusterResponse.reply, hok]
      | false =>
        simp only [hok, Bool.false_eq_true, if_false] at hread ⊢
        rw [lunpackresponse_package _ r.session_lt (inl rfl)] at hread
        apply proceeds_last hsock hrs hawaits hthread hread
        simp [lastData, SocketChannel.reply, ClusterResponse.reply, hok]
  | partway chunks left hlarge hmsg =>
    by_cases hmore : left.length > multiPart
    · rw [responseParts, partsOf_more hmore] at hframes
      injection hframes with hframe hrest
      rw [hframe, hrest]
      have hread := (readResponse_framed (responsePackage_length (length_take_le _ _))).trans
        (lunpackresponse_package (left.take multiPart) r.session_lt
          (inr (inr (inl rfl))))
      have hcomes := @Comes.partway r (chunks ++ [left.take multiPart]) (left.drop multiPart)
        hlarge (by simp [hmsg])
      rw [map_append] at hcomes
      exact proceeds_padding hsock hrs hawaits hthread hread (inr rfl) hcomes
    · rw [responseParts, partsOf_last hmore] at hframes
      injection hframes with hframe hrest
      rw [hframe, hrest]
      have hread := (readResponse_framed (responsePackage_length (not_lt.1 hmore))).trans
        (lunpackresponse_package left r.session_lt (inr (inr (inr rfl))))
      have hflat : (chunks ++ [left]).flatten = r.msg := by
        rw [hmsg, flatten_append, flatten_singleton]
      have hconcat : lconcat (.number r.msg.length :: chunks.map .string ++ [.string left]) =
          .buffer r.msg := by
        have hstrings := @lconcat_strings (chunks ++ [left])
          (by rw [hflat]; exact r.msg_lt hlarge.1)
        rw [hflat, map_append] at hstrings
        exact hstrings
      apply proceeds_last hsock hrs hawaits hthread hread
      rw [ClusterResponse.reply, if_pos hlarge.1]
      exact reply_concat hconcat

end Frames

/-! ## Whole exchanges -/

section Exchanges

variable {c : SocketChannel} {co : ℕ} {sessions : List ℕ} {rs : List ClusterResponse}

theorem proceeds_request {r : ClusterResponse} (hsock : c.sock = true)
    (hrs : ∀ r' ∈ r :: rs, r'.session ∈ sessions) (hidle : Idle c co)
    (hthread : ∀ s ∈ sessions, c.thread.get s = none) :
    Proceeds c co sessions (.request r.session co)
      (r.frames.map .frame ++ .resumed co :: rs.flatMap (exchange co))
      (r.due :: rs.map ClusterResponse.due) := by
  have hsession : r.session ∈ sessions := hrs r (by simp)
  have hstep : (c.step (.request r.session co)).1 = { c with
        thread := c.thread.put r.session (some co)
        waiting := c.waiting.put co (some r.session) } := Eq.refl _
  rw [Proceeds, hstep]
  refine ⟨⟨_, nil_append _, ?_⟩, ?_⟩
  · refine @ResponseStage.awaits { c with thread := _, waiting := _ } co sessions r rs none
      r.frames hsock hrs .nothing ?_ ?_
    · exact ⟨get_put_self .., get_put_self .., hidle.result, hidle.resultData, hidle.woken⟩
    · intro s hs hne
      rw [get_put, if_neg hne, hthread s hs]
  · constructor
    · exact Eq.refl c.sock
    · intro s hs
      have hne : s ≠ r.session := fun h => hs (h ▸ hsession)
      rw [get_put, if_neg hne]
    · intro co' hco
      rw [get_put, if_neg hco]
    · exact fun _ _ => Eq.refl _
    · exact fun _ _ => Eq.refl _
    · exact fun _ _ => Iff.refl _

theorem proceeds_resumed {r : ClusterResponse} (hsock : c.sock = true)
    (hrs : ∀ r' ∈ rs, r'.session ∈ sessions) (hanswered : Answered c co r.session r.reply)
    (hthread : ∀ s ∈ sessions, c.thread.get s = none) :
    Proceeds c co sessions (.resumed co) (rs.flatMap (exchange co))
      (r.due :: rs.map ClusterResponse.due) := by
  have hstep : c.step (.resumed co) = ({ c with
        result := c.result.put co none
        resultData := c.resultData.put co none
        waiting := c.waiting.put co none
        woken := c.woken.filter (· ≠ co) }, [r.due]) := by
    simp only [SocketChannel.step, SocketChannel.resumed, if_pos hanswered.woken,
      hanswered.waiting, hanswered.result, ClusterResponse.due]
  rw [Proceeds, hstep]
  refine ⟨⟨_, singleton_append.symm, ?_⟩, ?_⟩
  · refine @ResponseStage.idle
      { c with result := _, resultData := _, waiting := _, woken := _ } co sessions rs hsock hrs
      ?_ hthread
    constructor
    · exact get_put_self ..
    · exact get_put_self ..
    · exact get_put_self ..
    · simp
  · constructor
    · exact Eq.refl c.sock
    · exact fun _ _ => Eq.refl _
    · intro co' hco
      rw [get_put, if_neg hco]
    · intro co' hco
      rw [get_put, if_neg hco]
    · intro co' hco
      rw [get_put, if_neg hco]
    · intro co' hco
      simp [hco]

end Exchanges

/-- **One event.**  What happens in the exchanges of a coroutine brings them one stage
on. -/
theorem step_stage {k : ℕ × List ℕ} {e : SocketChannel.Event}
    {rest : List SocketChannel.Event} {due : List (ℕ × SenderReply)}
    (h : ResponseStage c ⟨k, e :: rest, due⟩) : Proceeds c k.1 k.2 e rest due := by
  generalize hstream : (⟨k, e :: rest, due⟩ : Stream _ _ _) = stream at h
  cases h with
  | idle co sessions rs hsock hrs hidle hthread =>
    injection hstream with hk hrest hdue
    cases rs with
    | nil => cases hrest
    | cons r rs =>
      rw [flatMap_cons, exchange, cons_append] at hrest
      injection hrest with he hrest
      rw [hk, he, hrest, hdue, append_assoc]
      exact proceeds_request hsock hrs hidle hthread
  | awaits co sessions r rs data frames hsock hrs hcomes hawaits hthread =>
    injection hstream with hk hrest hdue
    cases frames with
    | nil => exact absurd hcomes not_comes_nil
    | cons frame frames =>
      injection hrest with he hrest
      rw [hk, he, hrest, hdue]
      exact proceeds_frame hsock hrs hawaits hthread hcomes
  | answered co sessions r rs hsock hrs hanswered hthread =>
    injection hstream with hk hrest hdue
    injection hrest with he hrest
    rw [hk, he, hrest, hdue]
    exact proceeds_resumed hsock hrs hanswered hthread

theorem responses_separate : Separate SocketChannel.step ApartChannels ResponseStage where
  ended := by
    intro c k due h
    generalize hstream : (⟨k, [], due⟩ : Stream _ _ _) = stream at h
    cases h with
    | idle co sessions rs _ _ _ _ =>
      injection hstream with _ hrest hdue
      cases rs with
      | nil => exact hdue
      | cons r rs => cases hrest
    | awaits co sessions r rs data frames _ _ _ _ _ =>
      injection hstream with _ hrest _
      cases frames with
      | nil => cases hrest
      | cons _ _ => cases hrest
    | answered _ _ _ _ _ _ _ _ =>
      injection hstream with _ hrest _
      cases hrest
  moved := by
    intro c k e rest due h
    obtain ⟨⟨later, hdue, hstage⟩, -⟩ := step_stage h
    exact ⟨later, hdue, hstage⟩
  kept := fun hapart h ht => ht.kept (step_stage h).2 hapart

/-! ## Main result -/

structure Rests (c : SocketChannel) : Prop where
  sock : c.sock = true
  thread : ∀ session, c.thread.get session = none
  idle : ∀ co, Idle c co

theorem ResponseStage.ended {co : ℕ} {sessions : List ℕ}
    (h : ResponseStage c ⟨(co, sessions), [], []⟩) :
    c.sock = true ∧ Idle c co ∧ ∀ s ∈ sessions, c.thread.get s = none := by
  generalize hstream : (⟨(co, sessions), [], []⟩ : Stream _ _ _) = stream at h
  cases h with
  | idle co' sessions' rs hsock _ hidle hthread =>
    injection hstream with hk _ _
    injection hk with hco hsessions
    rw [hco, hsessions]
    exact ⟨hsock, hidle, hthread⟩
  | awaits _ _ _ _ _ _ _ _ _ _ _ =>
    injection hstream with _ _ hdue
    cases hdue
  | answered _ _ _ _ _ _ _ _ =>
    injection hstream with _ _ hdue
    cases hdue

/-- **Responses survive the wire.**  Take any number of coroutines, each with a list of
exchanges one after the other, all of whose sessions differ, and any merge of what happens
in them on one channel.  Every response is packed.  On a channel at rest every coroutine
gets each of its responses once, for its session: the bytes of a successful one, of an
error the text, cut to 32 KiB.  Nobody gets anything else, and the channel is at rest
again. -/
theorem responses_survive (exchanges : List (ℕ × List ClusterResponse)) (c : SocketChannel)
    (events : List SocketChannel.Event)
    (hcos : exchanges.Pairwise fun x y => x.1 ≠ y.1)
    (hsessions : (exchanges.flatMap fun x => x.2.map ClusterResponse.session).Nodup)
    (hrests : Rests c)
    (hinter : Interleaves (exchanges.map fun x => x.2.flatMap (exchange x.1)) events) :
    (∀ x ∈ exchanges, ∀ r ∈ x.2, ∃ packed, r.packed = .ok packed ∧ r.frames = packed.written) ∧
    (handleAll SocketChannel.step c events).2.Perm
      (exchanges.flatMap fun x => x.2.map fun r => (r.session, r.reply)) ∧
    Rests (handleAll SocketChannel.step c events).1 := by
  set streams := exchanges.map fun x =>
    (⟨(x.1, x.2.map ClusterResponse.session), x.2.flatMap (exchange x.1),
      x.2.map ClusterResponse.due⟩ : Stream (ℕ × List ℕ) SocketChannel.Event _) with hstreams
  have hrest : streams.map Stream.rest = exchanges.map fun x => x.2.flatMap (exchange x.1) := by
    simp [hstreams]
  have hdue : streams.flatMap Stream.due =
      exchanges.flatMap fun x => x.2.map fun r => (r.session, r.reply) := by
    rw [hstreams, flatMap_map]
    exact Eq.refl _
  have hidle : ∀ co sessions (rs : List ClusterResponse), (∀ r ∈ rs, r.session ∈ sessions) →
      ResponseStage c ⟨(co, sessions), rs.flatMap (exchange co), rs.map ClusterResponse.due⟩ :=
    fun co sessions rs hrs => .idle co sessions rs hrests.sock hrs (hrests.idle co)
      fun s _ => hrests.thread s
  have hstage : ∀ t ∈ streams, ResponseStage c t := by
    intro t ht
    obtain ⟨x, _, rfl⟩ := mem_map.1 ht
    exact hidle _ _ _ fun r hr => mem_map_of_mem hr
  have hapart : streams.Pairwise fun t t' => ApartChannels t.key t'.key := by
    rw [hstreams, pairwise_map]
    have hdisjoint := (nodup_flatMap.1 hsessions).2
    exact (hcos.and hdisjoint).imp fun h => ⟨h.1, h.2⟩
  have hsym : ∀ {k k'}, ApartChannels k k' → ApartChannels k' k :=
    fun h => ⟨h.1.symm, List.Disjoint.symm h.2⟩
  obtain ⟨hperm, hends, hothers⟩ := responses_separate.handled hsym (hrest ▸ hinter)
    hapart hstage
  -- a coroutine without exchanges, for the sessions that nobody uses
  obtain ⟨free, hfree⟩ := Infinite.exists_notMem_finset (exchanges.map Prod.fst).toFinset
  have hfree' : ∀ t ∈ streams, t.key.1 ≠ free := by
    intro t ht heq
    obtain ⟨x, hx, rfl⟩ := mem_map.1 ht
    exact hfree (mem_toFinset.2 (heq ▸ mem_map_of_mem hx))
  have hnone : ResponseStage (handleAll SocketChannel.step c events).1 ⟨(free, []), [], []⟩ :=
    hothers _ (fun t ht => ⟨hfree' t ht, disjoint_nil_right _⟩) (hidle free [] [] (by simp))
  refine ⟨fun x _ r _ => r.packed_ok, hdue ▸ hperm, hnone.ended.1, ?_, ?_⟩
  · intro session
    by_cases hs : ∃ t ∈ streams, session ∈ t.key.2
    · obtain ⟨t, ht, hmem⟩ := hs
      exact (hends t ht).ended.2.2 session hmem
    · have hstage' := hothers ⟨(free, [session]), [], []⟩
        (fun t ht => ⟨hfree' t ht, fun s hs' hmem =>
          hs ⟨t, ht, mem_singleton.1 hmem ▸ hs'⟩⟩)
        (hidle free [session] [] (by simp))
      exact hstage'.ended.2.2 session (by simp)
  · intro co
    by_cases hco : ∃ t ∈ streams, t.key.1 = co
    · obtain ⟨t, ht, hkey⟩ := hco
      exact hkey ▸ (hends t ht).ended.2.1
    · have hstage' := hothers ⟨(co, []), [], []⟩
        (fun t ht => ⟨fun hkey => hco ⟨t, ht, hkey⟩, disjoint_nil_right _⟩)
        (hidle co [] [] (by simp))
      exact hstage'.ended.2.1

/-- The error for the second coroutine comes between the frames of a response of more than
32 KiB for the first one, which goes on before the second does. -/
theorem responses_survive_between :
    (handleAll SocketChannel.step ⟨true, ∅, ∅, ∅, ∅, []⟩
      (.request 1 10 :: .frame (framed (responsePackage 2 1 (fillUint32 (multiPart + 1)))) ::
        .request 2 20 ::
        .frame (framed (responsePackage 0 2 [0x6e, 0x6f])) ::
        ((responseParts 1 (replicate (multiPart + 1) 7)).map .frame ++
          [.resumed 10, .resumed 20]))).2.Perm
      [(1, .ret (some (replicate (multiPart + 1) 7))),
        (2, .failed (some (.value (.string [0x6e, 0x6f]))))] := by
  have hlt : multiPart + 1 < 2 ^ 31 := by decide
  let large : ClusterResponse := ⟨1, true, replicate (multiPart + 1) 7, by decide, fun _ => by
      rw [length_replicate]
      exact hlt⟩
  let small : ClusterResponse := ⟨2, false, [0x6e, 0x6f], by decide, fun h => by cases h⟩
  have hlarge : large.frames = framed (responsePackage 2 1 (fillUint32 (multiPart + 1))) ::
        responseParts 1 (replicate (multiPart + 1) 7) := by
    have hL : large.Large := ⟨rfl, by simp [large]⟩
    have h := ClusterResponse.frames_large hL
    simpa only [large, length_replicate] using h
  have hsmall : small.frames = [framed (responsePackage 0 2 [0x6e, 0x6f])] := by
    have hL : ¬ small.Large := fun h => by cases h.1
    exact ClusterResponse.frames_single hL
  have hinter : Interleaves
      ([(10, [large]), (20, [small])].map fun x => x.2.flatMap (exchange x.1))
      (.request 1 10 :: .frame (framed (responsePackage 2 1 (fillUint32 (multiPart + 1)))) ::
        .request 2 20 ::
        .frame (framed (responsePackage 0 2 [0x6e, 0x6f])) ::
        ((responseParts 1 (replicate (multiPart + 1) 7)).map .frame ++
          [.resumed 10, .resumed 20])) := by
    simp only [map_cons, map_nil, flatMap_cons, flatMap_nil,
      append_nil, exchange, hlarge, hsmall, cons_append, nil_append]
    apply @Interleaves.cons _ [] [_]
    apply @Interleaves.cons _ [] [_]
    apply @Interleaves.cons _ [_] []
    apply @Interleaves.cons _ [_] []
    have hrest := interleaves_flatten
      [(responseParts 1 (replicate (multiPart + 1) 7)).map SocketChannel.Event.frame ++
        [.resumed 10], [.resumed 20]]
    simpa using hrest
  have hidle : Rests ⟨true, ∅, ∅, ∅, ∅, []⟩ :=
    ⟨rfl, fun _ => get_empty _, fun _ => ⟨get_empty _, get_empty _, get_empty _, by simp⟩⟩
  exact (responses_survive [(10, [large]), (20, [small])] _ _ (by simp) (by simp [large, small])
    hidle hinter).2.1

end Skynet.Analysis
