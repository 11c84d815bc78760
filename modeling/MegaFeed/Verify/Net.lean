import MegaFeed.Model.Net
import MegaFeed.Verify.Exchange

/-! # Requests over a byte stream

TCP hands bytes over in pieces of its own choosing. `readExact_done` and `writeAll_eq` say what the
two loops make of them, and `serveClient_refines` that a thread of the repair server answers what
`serveOneClient` finds in the stream, request by request, however the stream is cut and whatever it
holds. For a client `requests_all_or_nothing`: every request that `write_all` has written is
answered once and in full, and one that it has given up on does nothing. -/

namespace MegaFeed
namespace Net

open LittleEndian

variable {incoming : List Incoming} {outgoing : List Outgoing} {got : Bytes} {n : Nat}

/-! ## The two loops -/

/-- The bytes a connection brings before it ends. -/
def arrive : List Incoming → Bytes
  | [] => []
  | .interrupted :: incoming => arrive incoming
  | .closed :: _ | .failed :: _ => []
  | .bytes bytes :: incoming => if bytes = [] then [] else bytes ++ arrive incoming

/-- The connection ends after its bytes. -/
def ends : List Incoming → Bool
  | [] => false
  | .interrupted :: incoming => ends incoming
  | .closed :: _ | .failed :: _ => true
  | .bytes bytes :: incoming => if bytes = [] then true else ends incoming

/-- `read_exact` gets the next `n` bytes of the stream, if there are so many, and nothing else
is taken. -/
theorem readExact_done (h : n ≤ (arrive incoming).length) :
    ∃ rest, readExact got n incoming = .done (got ++ (arrive incoming).take n) rest ∧
      arrive rest = (arrive incoming).drop n ∧ ends rest = ends incoming := by
  induction incoming generalizing got n with
  | nil =>
    obtain rfl : n = 0 := Nat.le_zero.mp h
    exact ⟨[], by simp [readExact], rfl, rfl⟩
  | cons next incoming ih =>
    by_cases hzero : n = 0
    · subst hzero
      exact ⟨next :: incoming, by simp [readExact], rfl, rfl⟩
    cases next <;> simp only [readExact, if_neg hzero]
    case interrupted => exact ih h
    case closed => exact (hzero (Nat.le_zero.mp h)).elim
    case failed => exact (hzero (Nat.le_zero.mp h)).elim
    case bytes bytes =>
      by_cases hempty : bytes = []
      · rw [arrive, if_pos hempty] at h
        exact (hzero (Nat.le_zero.mp h)).elim
      simp only [arrive, ends, if_neg hempty] at h ⊢
      split
      · next hlt =>
        have hleft : bytes.drop n ≠ [] := by simpa using hlt
        refine ⟨.bytes (bytes.drop n) :: incoming, ?_, ?_, ?_⟩
        · rw [List.take_append_of_le_length hlt.le]
        · rw [arrive, if_neg hleft, List.drop_append_of_le_length hlt.le]
        · rw [ends, if_neg hleft]
      · next hle =>
        have hle := Nat.not_lt.mp hle
        rw [List.length_append] at h
        obtain ⟨rest, hread, harrive, hends⟩ := @ih (got ++ bytes) (n - bytes.length) (by omega)
        refine ⟨rest, ?_, ?_, hends⟩
        · rw [hread, List.take_append, List.take_of_length_le hle, List.append_assoc]
        · rw [harrive, List.drop_append, List.drop_of_length_le hle, List.nil_append]

/-- Otherwise it waits, or returns false when the connection ends. -/
theorem readExact_short (h : (arrive incoming).length < n) :
    readExact got n incoming = if ends incoming then .stopped else .blocked := by
  have hzero : n ≠ 0 := Nat.ne_zero_of_lt h
  induction incoming generalizing got n with
  | nil => rw [readExact, if_neg hzero]; rfl
  | cons next incoming ih =>
    cases next <;> simp only [readExact, if_neg hzero]
    case interrupted => exact ih h hzero
    case closed => rfl
    case failed => rfl
    case bytes bytes =>
      by_cases hempty : bytes = []
      · simp only [ends, if_pos hempty, if_true]
      simp only [arrive, ends, if_neg hempty, List.length_append] at h ⊢
      rw [if_neg (by omega)]
      exact ih (by omega) (by omega)

/-- `write_all` puts out the front of its bytes, and all of them if it returns true. -/
theorem writeAll_eq (bytes : Bytes) (outgoing : List Outgoing) :
    (writeAll bytes outgoing).sent <+: bytes ∧
    ((writeAll bytes outgoing).result = some true ↔ (writeAll bytes outgoing).sent = bytes) := by
  induction outgoing generalizing bytes with
  | nil =>
    rw [writeAll]
    split
    · next h => exact ⟨List.nil_prefix, by simp [h]⟩
    · next h => exact ⟨List.nil_prefix, by simp [eq_comm, h]⟩
  | cons next outgoing ih =>
    by_cases hne : bytes = []
    · cases next <;> simp [writeAll, hne]
    cases next with
    | moved count =>
      simp only [writeAll, if_neg hne]
      obtain ⟨hfront, hiff⟩ := ih (bytes.drop count)
      refine ⟨?_, ?_⟩
      · conv_rhs => rw [← List.take_append_drop count bytes]
        exact (List.prefix_append_right_inj _).mpr hfront
      · refine hiff.trans ⟨fun h => ?_, fun h => ?_⟩
        · simp only [h, List.take_append_drop]
        · conv_rhs at h => rw [← List.take_append_drop count bytes]
          exact List.append_cancel_left h
    | interrupted =>
      simp only [writeAll, if_neg hne]
      exact ih bytes
    | failed =>
      simp only [writeAll, if_neg hne]
      exact ⟨List.nil_prefix, by simp [eq_comm, hne]⟩
    | full room =>
      cases room <;> simp only [writeAll, if_neg hne]
      · exact ⟨List.nil_prefix, by simp [eq_comm, hne]⟩
      · exact ih bytes

/-! ## The thread -/

variable {bucketCount ringSize : Nat} [NeZero ringSize]
  {publisherAt : Nat → FeedPublisher bucketCount ringSize}

/-- The answers to the requests of a stream, and why there are no more. -/
structure Answered where
  answers : List Bytes
  ended : Ended

/-- What `serveOneClient` finds in a stream, one request after the other. -/
def answerStream (publisherAt : Nat → FeedPublisher bucketCount ringSize) :
    (fuel served : Nat) → Bytes → Answered
  | 0, _, _ => ⟨[], .serving⟩
  | fuel + 1, served, received =>
    match (publisherAt served).serveOneClient received with
    | .wait => ⟨[], .reading⟩
    | .close => ⟨[], .refused⟩
    | .reply response rest =>
      let later := answerStream publisherAt fuel (served + 1) rest
      ⟨response :: later.answers, later.ended⟩

theorem getU16_header {bytes : Bytes} : getU16 (bytes.take 4) = getU16 bytes :=
  getU16_take (by decide)

theorem getU16_header_drop {bytes : Bytes} :
    getU16 ((bytes.take 4).drop 2) = getU16 (bytes.drop 2) := by
  rw [List.drop_take]
  exact getU16_take (by decide)

/-- The two ways to ask whether a request is taken. -/
theorem not_refused {b count : Nat} (h : b < bucketCount ∧ count ≠ 0 ∧ count ≤ MAX_REPAIR_BATCH) :
    ¬(b ≥ bucketCount ∨ count = 0 ∨ count > MAX_REPAIR_BATCH) := by
  omega

theorem refused {b count : Nat} (h : ¬(b < bucketCount ∧ count ≠ 0 ∧ count ≤ MAX_REPAIR_BATCH)) :
    b ≥ bucketCount ∨ count = 0 ∨ count > MAX_REPAIR_BATCH := by
  omega

/-! What a thread does with the next request is what `serveOneClient` finds in the stream. -/

section
variable {fuel served : Nat} {response rest : Bytes}

theorem serveClient_wait (h : (publisherAt served).serveOneClient (arrive incoming) = .wait) :
    serveClient publisherAt (fuel + 1) served incoming outgoing =
      ⟨[], if ends incoming then .peerGone else .reading⟩ := by
  rcases Nat.lt_or_ge (arrive incoming).length 4 with hshort | hheader
  · rw [serveClient, readExact_short hshort]
    cases ends incoming <;> rfl
  obtain ⟨behind, hread, harrive, hends⟩ := @readExact_done incoming [] 4 hheader
  rw [FeedPublisher.serveOneClient, if_neg (Nat.not_lt.mpr hheader)] at h
  dsimp only at h
  split at h
  · next hcheck =>
    split at h
    · next hbody =>
      have hshort : (arrive behind).length < (getU16 ((arrive incoming).drop 2)).toNat * 8 := by
        rw [harrive]
        simpa using hbody
      simp only [serveClient, hread, List.nil_append, getU16_header, getU16_header_drop,
        dif_neg (not_refused hcheck),
        readExact_short hshort, hends]
      cases ends incoming <;> rfl
    · cases h
  · cases h

theorem serveClient_close (h : (publisherAt served).serveOneClient (arrive incoming) = .close) :
    serveClient publisherAt (fuel + 1) served incoming outgoing = ⟨[], .refused⟩ := by
  rcases Nat.lt_or_ge (arrive incoming).length 4 with hshort | hheader
  · rw [FeedPublisher.serveOneClient, if_pos hshort] at h
    cases h
  obtain ⟨behind, hread, harrive, hends⟩ := @readExact_done incoming [] 4 hheader
  rw [FeedPublisher.serveOneClient, if_neg (Nat.not_lt.mpr hheader)] at h
  dsimp only at h
  split at h
  · split at h <;> cases h
  · next hcheck =>
    simp only [serveClient, hread, List.nil_append, getU16_header, getU16_header_drop,
      dif_pos (refused hcheck)]

theorem serveClient_reply
    (h : (publisherAt served).serveOneClient (arrive incoming) = .reply response rest) :
    rest.length + 12 ≤ (arrive incoming).length ∧
    ∃ incoming', arrive incoming' = rest ∧ ends incoming' = ends incoming ∧
      serveClient publisherAt (fuel + 1) served incoming outgoing =
        (writeAll response outgoing).andThen
          (serveClient publisherAt fuel (served + 1) incoming'
            (writeAll response outgoing).outgoing) := by
  have hheader : 4 ≤ (arrive incoming).length := by
    by_contra hshort
    rw [FeedPublisher.serveOneClient, if_pos (Nat.not_le.mp hshort)] at h
    cases h
  obtain ⟨behind, hread, harrive, hends⟩ := @readExact_done incoming [] 4 hheader
  rw [FeedPublisher.serveOneClient, if_neg (Nat.not_lt.mpr hheader)] at h
  dsimp only at h
  split at h
  · next hcheck =>
    split at h
    · cases h
    · next hbody =>
      have hfull : (getU16 ((arrive incoming).drop 2)).toNat * 8 ≤ (arrive behind).length := by
        rw [harrive]
        simpa using hbody
      obtain ⟨behind', hread', harrive', hends'⟩ := @readExact_done behind [] _ hfull
      rw [harrive] at hread' harrive' hfull
      obtain ⟨rfl, rfl⟩ := FeedPublisher.Served.reply.inj h
      refine ⟨?_, behind', ?_, hends'.trans hends, ?_⟩
      · rw [List.length_drop] at hfull ⊢
        omega
      · rw [harrive', List.drop_drop]
      · simp only [serveClient, hread, List.nil_append, getU16_header, getU16_header_drop,
        dif_neg (not_refused hcheck),
          hread']
  · cases h

end

/-! ## A whole session -/

/-- What has been written is the front of the answers. -/
theorem serveClient_front (fuel served : Nat) (incoming : List Incoming)
    (outgoing : List Outgoing) :
    (serveClient publisherAt fuel served incoming outgoing).written <+:
      (answerStream publisherAt fuel served (arrive incoming)).answers.flatten := by
  induction fuel generalizing served incoming outgoing with
  | zero => exact List.nil_prefix
  | succ fuel ih =>
    rw [answerStream]
    cases h : (publisherAt served).serveOneClient (arrive incoming) with
    | wait => rw [serveClient_wait h]; exact List.nil_prefix
    | close => rw [serveClient_close h]; exact List.nil_prefix
    | reply response rest =>
      obtain ⟨-, incoming', rfl, -, hnext⟩ :=
        @serveClient_reply incoming outgoing _ _ _ publisherAt fuel _ _ _ h
      obtain ⟨hsent, hwhole⟩ := writeAll_eq response outgoing
      rw [hnext, WriteAll.andThen]
      split
      · exact hsent.trans (List.prefix_append ..)
      · exact hsent.trans (List.prefix_append ..)
      · next htrue =>
        rw [hwhole.mp htrue]
        exact (List.prefix_append_right_inj response).mpr (ih ..)

/-- Unless the answers could not be written, all of them have been, and the thread is where the
stream says; at the end of the connection it leaves instead of waiting. -/
theorem serveClient_whole (fuel served : Nat) (incoming : List Incoming) (outgoing : List Outgoing)
    (h : (serveClient publisherAt fuel served incoming outgoing).ended ∉ [.writing, .writeFailed]) :
    let stream := answerStream publisherAt fuel served (arrive incoming)
    (serveClient publisherAt fuel served incoming outgoing).written = stream.answers.flatten ∧
    (serveClient publisherAt fuel served incoming outgoing).ended =
      if stream.ended = .reading ∧ ends incoming then .peerGone else stream.ended := by
  induction fuel generalizing served incoming outgoing with
  | zero => exact ⟨rfl, rfl⟩
  | succ fuel ih =>
    dsimp only
    rw [answerStream]
    cases hserve : (publisherAt served).serveOneClient (arrive incoming) with
    | wait =>
      rw [serveClient_wait hserve]
      exact ⟨rfl, by simp⟩
    | close =>
      rw [serveClient_close hserve]
      exact ⟨rfl, by simp⟩
    | reply response rest =>
      obtain ⟨-, incoming', rfl, hends, hnext⟩ :=
        @serveClient_reply incoming outgoing _ _ _ publisherAt fuel _ _ _ hserve
      obtain ⟨-, hwhole⟩ := writeAll_eq response outgoing
      rw [hnext, WriteAll.andThen] at h ⊢
      cases hresult : (writeAll response outgoing).result with
      | none => simp [hresult] at h
      | some written =>
        cases written with
        | false => simp [hresult] at h
        | true =>
          simp only [hresult] at h
          obtain ⟨hwritten, hended⟩ := ih _ _ _ h
          exact ⟨by simp [hwritten, hwhole.mp hresult], by simpa only [hends] using hended⟩

/-- A thread with a round for every twelve bytes runs out of requests first. -/
theorem serveClient_rounds {fuel served : Nat} (h : (arrive incoming).length < 12 * fuel) :
    (serveClient publisherAt fuel served incoming outgoing).ended ≠ .serving := by
  induction fuel generalizing served incoming outgoing with
  | zero => exact (Nat.not_lt_zero _ h).elim
  | succ fuel ih =>
    cases hserve : (publisherAt served).serveOneClient (arrive incoming) with
    | wait =>
      rw [serveClient_wait hserve]
      cases ends incoming <;> decide
    | close =>
      rw [serveClient_close hserve]
      decide
    | reply response rest =>
      obtain ⟨hlength, incoming', rfl, -, hnext⟩ :=
        @serveClient_reply incoming outgoing _ _ _ publisherAt fuel _ _ _ hserve
      rw [hnext, WriteAll.andThen]
      split
      · exact Ended.noConfusion
      · exact Ended.noConfusion
      · exact ih (by omega)

/-- **The server answers the stream, not the pieces.** Whatever a client sends, however it is cut
and however little the connection takes at a time, a thread puts out the front of the answers to the
requests in the stream. If no write of its own fails or waits, it has put out all of them, and has
left its loop exactly at a request that is wrong or at the end of the connection; with a round for
every twelve bytes it never runs out of rounds. -/
theorem serveClient_refines (publisherAt : Nat → FeedPublisher bucketCount ringSize) (fuel : Nat)
    (incoming : List Incoming) (outgoing : List Outgoing) :
    let session := serveClient publisherAt fuel 0 incoming outgoing
    let stream := answerStream publisherAt fuel 0 (arrive incoming)
    session.written <+: stream.answers.flatten ∧
    (session.ended ∉ [.writing, .writeFailed] → session.written = stream.answers.flatten ∧
      session.ended = if stream.ended = .reading ∧ ends incoming then .peerGone else stream.ended) ∧
    ((arrive incoming).length < 12 * fuel → session.ended ≠ .serving) :=
  ⟨serveClient_front .., serveClient_whole fuel 0 incoming outgoing, serveClient_rounds⟩

/-- A request that arrives in two pieces, and an answer that leaves in two. -/
theorem serveClient_refines_pieces :
    let publisher : FeedPublisher 1 1 := ((FeedPublisher.init 0 (Stream'.const 0)).publish {}).1
    let request := FeedPublisher.request 0 [1]
    let session := serveClient (fun _ => publisher) 2 0
      [.bytes (request.take 3), .interrupted, .bytes (request.drop 3), .closed]
      [.moved 7, .full true, .moved 64]
    session.written = (answerStream (fun _ => publisher) 2 0 request).answers.flatten ∧
      session.ended = .peerGone := by
  intro publisher request session
  have h := serveClient_refines (fun _ => publisher) 2
    [.bytes (request.take 3), .interrupted, .bytes (request.drop 3), .closed]
    [.moved 7, .full true, .moved 64]
  obtain ⟨hwritten, hended⟩ := h.2.1 (by decide +kernel)
  exact ⟨hwritten.trans (by decide +kernel), hended.trans (by decide +kernel)⟩

/-! ## The client's side -/

/-- A request for messages of a bucket. -/
structure Request where
  bucketIndex : UInt16
  sequences : List UInt64

def Request.bytes (asked : Request) : Bytes :=
  FeedPublisher.request asked.bucketIndex asked.sequences

/-- The server takes the request. -/
structure Request.Valid (bucketCount : Nat) (asked : Request) : Prop where
  known : asked.bucketIndex.toNat < bucketCount
  pos : 1 ≤ asked.sequences.length
  batch : asked.sequences.length ≤ MAX_REPAIR_BATCH

/-- One frame for each number, from the ring the publisher has. -/
def Request.answer (publisher : FeedPublisher bucketCount ringSize) (asked : Request) : Bytes :=
  match publisher.buckets[asked.bucketIndex.toNat]? with
  | none => []
  | some bucket => asked.sequences.flatMap (FeedPublisher.frame asked.bucketIndex bucket.ring)

theorem serveOneClient_valid {publisher : FeedPublisher bucketCount ringSize} {asked : Request}
    (h : asked.Valid bucketCount) (rest : Bytes) :
    publisher.serveOneClient (asked.bytes ++ rest) = .reply (asked.answer publisher) rest := by
  rw [Request.bytes, FeedPublisher.serveOneClient_request h.known h.pos h.batch, Request.answer,
    Vector.getElem?_eq_getElem h.known]

/-- A client writes requests until `write_all` returns false or waits: the bytes on the connection,
and how many requests were written. -/
def writeRequests : List Request → List Outgoing → Bytes × Nat
  | [], _ => ([], 0)
  | first :: requests, outgoing =>
    let write := writeAll first.bytes outgoing
    if write.result = some true then
      let (bytes, count) := writeRequests requests write.outgoing
      (write.sent ++ bytes, count + 1)
    else (write.sent, 0)

/-- The answers to requests of which the first was the `served`-th of its connection. -/
def answersTo (publisherAt : Nat → FeedPublisher bucketCount ringSize) (served : Nat)
    (requests : List Request) : List Bytes :=
  requests.mapIdx fun i request => request.answer (publisherAt (served + i))

theorem answersTo_cons {served : Nat} {first : Request} {requests : List Request} :
    answersTo publisherAt served (first :: requests) =
      first.answer (publisherAt served) :: answersTo publisherAt (served + 1) requests := by
  rw [answersTo, List.mapIdx_cons, Nat.add_zero]
  refine congrArg _ (congrArg (List.mapIdx · requests) (funext₂ fun i request => ?_))
  rw [Nat.add_assoc, Nat.add_comm 1]

/-- In the stream of such a client the server finds the requests that were written. -/
theorem answerStream_writeRequests {fuel served : Nat} {requests : List Request}
    {client : List Outgoing}
    (hvalid : ∀ request ∈ requests, request.Valid bucketCount) (hfuel : requests.length < fuel) :
    answerStream publisherAt fuel served (writeRequests requests client).1 =
      ⟨answersTo publisherAt served (requests.take (writeRequests requests client).2),
        .reading⟩ := by
  induction requests generalizing fuel served client with
  | nil =>
    obtain ⟨fuel, rfl⟩ := Nat.exists_eq_succ_of_ne_zero (Nat.ne_zero_of_lt hfuel)
    rfl
  | cons first requests ih =>
    obtain ⟨fuel, rfl⟩ := Nat.exists_eq_succ_of_ne_zero (Nat.ne_zero_of_lt hfuel)
    obtain ⟨hfirst, hrequests⟩ := List.forall_mem_cons.mp hvalid
    obtain ⟨hsent, hwhole⟩ := writeAll_eq first.bytes client
    by_cases htrue : (writeAll first.bytes client).result = some true
    · simp only [writeRequests, if_pos htrue, hwhole.mp htrue, List.take_succ_cons, answersTo_cons]
      rw [answerStream, serveOneClient_valid hfirst]
      dsimp only
      rw [ih hrequests (Nat.lt_of_succ_lt_succ hfuel)]
    · simp only [writeRequests, if_neg htrue, List.take_zero]
      have hshort : (writeAll first.bytes client).sent.length < first.bytes.length :=
        lt_of_le_of_ne hsent.length_le fun heq => htrue (hwhole.mpr (hsent.eq_of_length heq))
      rw [answerStream, FeedPublisher.serveOneClient_wait hfirst.known hfirst.pos
        hfirst.batch hsent hshort]
      rfl

/-- **A request is answered as a whole or not at all.** Every request a client wrote is answered
once, in order and with one frame for every number, from the ring as it then is; the request on
which `write_all` returned false, of which any part may have gone out, is not answered and holds up
nothing, and the server then waits, or leaves when the connection is closed. This is so wherever
the stream is cut; only a write of the server's own that fails or waits can keep the rest of the
answers back. -/
theorem requests_all_or_nothing (publisherAt : Nat → FeedPublisher bucketCount ringSize)
    {requests : List Request} {client : List Outgoing} {incoming : List Incoming} {fuel : Nat}
    (hvalid : ∀ asked ∈ requests, asked.Valid bucketCount) (hfuel : requests.length < fuel)
    (harrive : arrive incoming = (writeRequests requests client).1) (outgoing : List Outgoing) :
    let session := serveClient publisherAt fuel 0 incoming outgoing
    let answers := answersTo publisherAt 0 (requests.take (writeRequests requests client).2)
    session.written <+: answers.flatten ∧
    (session.ended ∉ [.writing, .writeFailed] →
      session.written = answers.flatten ∧ session.ended = if ends incoming then .peerGone
      else .reading) := by
  dsimp only
  have hstream := @answerStream_writeRequests _ _ _ publisherAt fuel 0 requests client hvalid hfuel
  refine ⟨?_, fun hended => ?_⟩
  · have hfront := @serveClient_front _ _ _ publisherAt fuel 0 incoming outgoing
    rwa [harrive, hstream] at hfront
  · have hwhole := @serveClient_whole _ _ _ publisherAt fuel 0 incoming outgoing hended
    rw [harrive, hstream] at hwhole
    simpa using hwhole

/-- The second request is given up after three bytes. -/
theorem requests_all_or_nothing_givenUp :
    let publisher : FeedPublisher 1 1 := ((FeedPublisher.init 0 (Stream'.const 0)).publish {}).1
    let requests : List Request := [⟨0, [1]⟩, ⟨0, [1, 2]⟩]
    let written := writeRequests requests [.moved 5, .interrupted, .moved 7, .moved 3, .full false]
    let session := serveClient (fun _ => publisher) 3 0 [.bytes written.1, .closed] [.moved 64]
    session.written = Request.answer publisher ⟨0, [1]⟩ ∧ session.ended = .peerGone := by
  intro publisher requests written session
  have hvalid : ∀ asked ∈ requests, asked.Valid 1 := by
    intro asked h
    rcases List.mem_pair.mp h with rfl | rfl <;> exact ⟨by decide, by decide, by decide⟩
  have h := @requests_all_or_nothing 1 1 _ (fun _ => publisher) requests
    [.moved 5, .interrupted, .moved 7, .moved 3, .full false] [.bytes written.1, .closed] 3 hvalid
    (by decide) (by decide +kernel) [.moved 64]
  obtain ⟨hwritten, hended⟩ := h.2 (by decide +kernel)
  exact ⟨hwritten.trans (by decide +kernel), hended.trans (by decide +kernel)⟩

end Net
end MegaFeed
