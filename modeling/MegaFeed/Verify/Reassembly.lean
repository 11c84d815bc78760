import MegaFeed.Verify.Life

/-! # The repair stream in pieces

What `drain_tcp` does with a stream that `recv` brings in pieces, over any number of calls and with
anything else done in between, is what `parse` finds in the whole of it (`reassembles`). -/

namespace MegaFeed
namespace Subscriber
open Framing

variable {subscriber : Subscriber} {buckets : List Bucket} {recvs : List Recv}
  {bytes rest tail : Bytes}
  {log events : List Event}

/-! ## Parsing in pieces -/

/-- The tail of the first piece is kept for the second, unless a frame of the first ends it all. -/
theorem parse_append (bytes rest : Bytes) : parse (bytes ++ rest) =
    match parse bytes with
    | (frames, none) => (frames, none)
    | (frames, some tail) => (frames ++ (parse (tail ++ rest)).1, (parse (tail ++ rest)).2) := by
  simp only [parse, Format.splitWhile_append bytes rest]
  rcases repairFormat.splitWhile possible bytes with ⟨frames, _ | tail⟩
  · rfl
  · simp

theorem not_ready_of_parse (h : (parse bytes).2 = some tail) : ¬repairFormat.Ready tail :=
  Format.not_ready_of_splitWhile h

/-- Less than a frame is less than the buffer holds, whatever length it announces. -/
theorem length_lt_of_not_ready (h : ¬repairFormat.Ready tail) : tail.length < REPAIR_BUF_CAP := by
  have hlength := (getU16 (tail.drop 10)).toNat_lt
  have hcap : REPAIR_BUF_CAP = 88064 := rfl
  rw [ready_iff] at h
  omega

/-- A complete frame is acted on or ends the connection. -/
theorem parse_progress (h : repairFormat.Ready bytes) :
    (parse bytes).1 ≠ [] ∨ (parse bytes).2 = none := by
  cases hpossible : possible (bytes.take (repairFormat.frameLength bytes)) with
  | true =>
    refine .inl ?_
    rw [parse, Format.splitWhile_of_good h hpossible]
    simp
  | false =>
    refine .inr ?_
    rw [parse, Format.splitWhile_of_bad h hpossible]

/-! ## Taking bytes off the connection -/

theorem taken_zero : taken 0 recvs = [] := by
  induction recvs with
  | nil => rfl
  | cons recv recvs ih =>
    cases recv with
    | closed => rfl
    | data bytes => rw [taken, List.take_zero, Nat.zero_sub, ih, List.append_nil]

theorem receive_eq {buffer : Bytes} (h : receive buffer recvs = some bytes) :
    bytes = buffer ++ taken (REPAIR_BUF_CAP - buffer.length) recvs := by
  induction recvs generalizing buffer with
  | nil =>
    cases h
    exact (List.append_nil _).symm
  | cons recv recvs ih =>
    unfold receive at h
    split at h
    · next hfull =>
      cases h
      rw [hfull, Nat.sub_self, taken_zero, List.append_nil]
    · cases recv with
      | closed => cases h
      | data piece =>
        have hroom :
            REPAIR_BUF_CAP - (buffer ++ piece.take (REPAIR_BUF_CAP - buffer.length)).length =
            REPAIR_BUF_CAP - buffer.length - piece.length := by
          rw [List.length_append, List.length_take]
          omega
        rw [ih h, hroom, List.append_assoc, taken]

/-! ## What the log says of it -/

theorem repairs_append : repairs (log ++ events) = repairs log ++ repairs events :=
  List.filter_append ..

theorem repairs_eq_nil (h : ∀ event ∈ events, event.repair = false) : repairs events = [] :=
  List.filter_eq_nil_iff.mpr fun event hmem => by simp [h event hmem]

theorem repairs_resync {rest : Option Bytes} : repairs (resync rest) = resync rest := by
  cases rest <;> rfl

theorem withBucket_onFrame {id sequence : Nat} {payload : Option OrderMessage}
    (buckets : List Bucket) :
    (withBucket id (·.onFrame sequence payload) buckets).2 =
      if id ∈ buckets.map (·.id) then [.bucket id (.frame sequence payload)] else [] := by
  induction buckets with
  | nil => rfl
  | cons first buckets ih =>
    by_cases hid : first.id = id
    · rw [withBucket, if_pos hid, List.map_cons, hid, if_pos List.mem_cons_self]
      rfl
    · simp only [withBucket, if_neg hid, ih, List.map_cons, List.mem_cons, Ne.symm hid, false_or]

theorem ids_withBucket {id sequence : Nat} {payload : Option OrderMessage} (buckets : List Bucket) :
    (withBucket id (·.onFrame sequence payload) buckets).1.map (·.id) = buckets.map (·.id) := by
  rcases withBucket_cases id (·.onFrame sequence payload) buckets with hnone | ⟨i,
    bucket, hi, -, heq⟩
  · rw [hnone]
  · rw [heq]
    exact map_id_set hi (bucket.onFrame_answered sequence payload).id

/-- The events of the frame loop are those of the frames it acts on. -/
theorem repairs_onAnswers (buckets : List Bucket) (replies : List Answer) (tail : Bytes) :
    repairs (onAnswers buckets replies).2 = acted (buckets.map (·.id)) (replies, some tail) := by
  induction replies generalizing buckets with
  | nil => rfl
  | cons reply replies ih =>
    simp only [onAnswers, repairs_append, withBucket_onFrame, ih, ids_withBucket, acted]
    by_cases hmem : reply.bucket ∈ buckets.map (·.id)
    · rw [if_pos hmem, @List.filter_cons_of_pos _ _ reply replies (decide_eq_true hmem)]
      rfl
    · rw [if_neg hmem, @List.filter_cons_of_neg _ _ reply replies (by simpa using hmem)]
      rfl

theorem repairs_map {id : Nat} {events : List BucketEvent}
    (h : ∀ sequence payload, .frame sequence payload ∉ events) :
    repairs (events.map (.bucket id)) = [] := by
  refine repairs_eq_nil fun event hmem => ?_
  obtain ⟨bucketEvent, hmem', rfl⟩ := List.mem_map.mp hmem
  cases bucketEvent with
  | frame sequence payload => exact absurd hmem' (h sequence payload)
  | _ => rfl

theorem Bucket.frame_of_mem_acts {settings : Settings} {bucket : Bucket} {acts : List Act}
    {sequence : Nat} {payload : Option OrderMessage}
    (h : .frame sequence payload ∈ (bucket.acts settings acts).2) :
    .frame sequence payload ∈ acts := by
  induction acts generalizing bucket with
  | nil => cases h
  | cons act acts ih =>
    rcases List.mem_append.mp h with h | h
    · cases emits_of_mem h with
      | frame => exact List.mem_cons_self
      | passed houtcome => cases houtcome
    · exact List.mem_cons_of_mem _ (ih h)

/-! ## One call -/

/-- Nothing is done on the connection. -/
structure Rests (subscriber : Subscriber) (result : Subscriber × List Event) : Prop where
  repairOpen : result.1.repairOpen = subscriber.repairOpen
  repairBuffer : result.1.repairBuffer = subscriber.repairBuffer
  repairs : repairs result.2 = []

theorem rests_atBucket {i : Nat} {action : Bucket → Bucket × List BucketEvent}
    (h : ∀ bucket sequence payload, .frame sequence payload ∉ (action bucket).2) :
    Rests subscriber (subscriber.atBucket i action) := by
  rw [atBucket]
  split
  · exact ⟨rfl, rfl, rfl⟩
  · next bucket hbucket => exact ⟨rfl, rfl, repairs_map (h bucket)⟩

theorem rests_drainUdp {i : Nat} {arrivals : List Arrival} :
    Rests subscriber (subscriber.call (.drainUdp i arrivals)) := by
  have R := @rests_atBucket subscriber i (drainUdp subscriber.backfill · arrivals)
    fun bucket sequence payload hmem => by
      rw [show subscriber.backfill = subscriber.settings.backfill from rfl, drainUdp_acts] at hmem
      obtain ⟨arrival, -, hact⟩ := List.mem_filterMap.mp (Bucket.frame_of_mem_acts hmem)
      rw [Arrival.act] at hact
      split at hact
      · cases hact
      · split at hact <;> cases hact
  exact ⟨R.repairOpen, R.repairBuffer, R.repairs⟩

theorem rests_deliver {i : Nat} : Rests subscriber (subscriber.call (.deliver i)) := by
  refine rests_atBucket fun bucket sequence payload hmem => ?_
  have hact : .frame sequence payload ∈ (bucket.act subscriber.settings .deliver).2 := hmem
  cases Bucket.emits_of_mem hact with
  | passed houtcome => cases houtcome

theorem Asks.rests {bucket bucket' : Bucket} {input : NakInput} {subscriber' : Subscriber}
    (h : Asks subscriber bucket input (subscriber', bucket', events))
    (hstays : ∀ event ∈ events, event.Stays) : Rests subscriber (subscriber', events) := by
  cases h with
  | waits => exact ⟨rfl, rfl, rfl⟩
  | refused => exact ⟨rfl, rfl, rfl⟩
  | failed =>
    exact absurd (hstays _ (List.mem_append_right _ (List.mem_singleton_self _))) id
  | written sequences =>
    cases hopen : subscriber.repairOpen with
    | true =>
      rw [Subscriber.connected, hopen]
      exact ⟨hopen.symm, rfl, rfl⟩
    | false =>
      rw [Subscriber.connected, hopen] at hstays
      exact absurd (hstays (.connect true input.now) List.mem_cons_self) id

theorem rests_nak {i : Nat} {input : NakInput}
    (hstays : ∀ event ∈ (subscriber.call (.nak i input)).2, event.Stays) :
    Rests subscriber (subscriber.call (.nak i input)) := by
  rw [call] at hstays ⊢
  split
  · exact ⟨rfl, rfl, rfl⟩
  next bucket hbucket =>
  simp only [hbucket] at hstays
  rcases nak_cases subscriber bucket input with ⟨-, heq⟩ | ⟨-, subscriber', bucket',
    events, hasks, heq⟩
  · rw [heq]
    exact ⟨rfl, rfl, rfl⟩
  · rw [heq] at hstays ⊢
    have R := hasks.rests fun event hmem => hstays event (List.mem_append_right _ hmem)
    refine ⟨R.repairOpen, R.repairBuffer, ?_⟩
    rw [repairs_append, R.repairs, List.append_nil]
    refine repairs_map fun sequence payload hmem => ?_
    obtain ⟨_, -, hexpired⟩ := List.mem_map.mp hmem
    cases hexpired

/-- On a connection that is not open nothing happens. -/
theorem rests_closed (hopen : subscriber.repairOpen = false) {call : Call}
    (hstays : ∀ event ∈ (subscriber.call call).2, event.Stays) :
    Rests subscriber (subscriber.call call) := by
  cases call with
  | drainUdp => exact rests_drainUdp
  | drainTcp =>
    rw [Subscriber.call, if_neg (by simp [hopen])]
    exact ⟨rfl, rfl, rfl⟩
  | nak => exact rests_nak hstays
  | deliver => exact rests_deliver

/-- What a call of `drain_tcp` does: all that is held and taken is parsed. -/
theorem call_drainTcp (hopen : subscriber.repairOpen = true)
    (hreceive : receive subscriber.repairBuffer recvs = some bytes) :
    bytes = subscriber.repairBuffer ++ subscriber.took (.drainTcp recvs) ∧
    (subscriber.call (.drainTcp recvs)).2 =
      (onAnswers subscriber.buckets (parse bytes).1).2 ++ resync (parse bytes).2 ∧
    (subscriber.call (.drainTcp recvs)).1.buckets =
      (onAnswers subscriber.buckets (parse bytes).1).1 ∧
    (subscriber.call (.drainTcp recvs)).1.repairOpen = (parse bytes).2.isSome ∧
    (subscriber.call (.drainTcp recvs)).1.repairBuffer = (parse bytes).2.getD [] := by
  have hbytes := receive_eq hreceive
  rw [call, if_pos hopen, drainTcp, hreceive, took, if_pos hopen]
  dsimp only
  rw [frameLoop_eq _ le_rfl]
  refine ⟨hbytes, ?_⟩
  cases (parse bytes).2 with
  | none => exact ⟨rfl, rfl, rfl, rfl⟩
  | some rest => exact ⟨rfl, rfl, hopen, rfl⟩

theorem receives_of_stays (hopen : subscriber.repairOpen = true)
    (hstays : ∀ event ∈ (subscriber.call (.drainTcp recvs)).2, event.Stays) :
    receive subscriber.repairBuffer recvs =
      some (subscriber.repairBuffer ++ subscriber.took (.drainTcp recvs)) := by
  rw [call, if_pos hopen, drainTcp] at hstays
  cases hreceive : receive subscriber.repairBuffer recvs with
  | none =>
    rw [hreceive] at hstays
    exact absurd (hstays .closed List.mem_cons_self) id
  | some bytes => rw [(call_drainTcp hopen hreceive).1]

/-! ## A run -/

variable {calls before after : List Call}

theorem run_cons {first : Call} : subscriber.run (first :: calls) =
    (((subscriber.call first).1.run calls).1,
      (subscriber.call first).2 ++ ((subscriber.call first).1.run calls).2) := rfl

theorem run_append : subscriber.run (before ++ after) =
    (((subscriber.run before).1.run after).1,
      (subscriber.run before).2 ++ ((subscriber.run before).1.run after).2) := by
  induction before generalizing subscriber with
  | nil => rfl
  | cons first before ih => rw [List.cons_append, run_cons, ih, run_cons, List.append_assoc]

theorem run_closed (hopen : subscriber.repairOpen = false)
    (hstays : ∀ event ∈ (subscriber.run calls).2, event.Stays) :
    Rests subscriber (subscriber.run calls) ∧ received subscriber calls = [] := by
  induction calls generalizing subscriber with
  | nil => exact ⟨⟨rfl, rfl, rfl⟩, rfl⟩
  | cons first calls ih =>
    rw [run_cons] at hstays ⊢
    have R := rests_closed hopen fun event hmem => hstays event (List.mem_append_left _ hmem)
    obtain ⟨R', hnone⟩ := ih (R.repairOpen.trans hopen)
      fun event hmem => hstays event (List.mem_append_right _ hmem)
    have htook : subscriber.took first = [] := by
      cases first with
      | drainTcp => exact if_neg (by simp [hopen])
      | _ => rfl
    refine ⟨⟨R'.repairOpen.trans R.repairOpen, R'.repairBuffer.trans R.repairBuffer, ?_⟩, ?_⟩
    · rw [repairs_append, R.repairs, R'.repairs]
      rfl
    · rw [received, htook, hnone]
      rfl

theorem acted_append {ids : List Nat} {frames frames' : List Answer} {rest : Option Bytes} :
    acted ids (frames, some tail) ++ acted ids (frames', rest) =
      acted ids (frames ++ frames', rest) := by
  simp [acted, resync]

/-- What has become of an open connection on which `parsed` was read. -/
structure Reassembled (ids : List Nat) (parsed : List Answer × Option Bytes)
    (result : Subscriber × List Event) : Prop where
  repairs : repairs result.2 = acted ids parsed
  repairOpen : result.1.repairOpen = parsed.2.isSome
  repairBuffer : result.1.repairBuffer = parsed.2.getD []

/-- In a run of an open connection all that is held and taken is parsed. -/
theorem run_reassembled (hopen : subscriber.repairOpen = true)
    (hheld : ¬repairFormat.Ready subscriber.repairBuffer)
    (hstays : ∀ event ∈ (subscriber.run calls).2, event.Stays) :
    Reassembled (subscriber.buckets.map (·.id))
      (parse (subscriber.repairBuffer ++ received subscriber calls)) (subscriber.run calls) := by
  induction calls generalizing subscriber with
  | nil =>
    rw [received, List.append_nil, parse_of_not_ready hheld]
    exact ⟨rfl, hopen, rfl⟩
  | cons first calls ih =>
    rw [run_cons] at hstays ⊢
    have hfirst : ∀ event ∈ (subscriber.call first).2, event.Stays :=
      fun event hmem => hstays event (List.mem_append_left _ hmem)
    have hlater : ∀ event ∈ ((subscriber.call first).1.run calls).2, event.Stays :=
      fun event hmem => hstays event (List.mem_append_right _ hmem)
    have hids := (call_acted subscriber first).ids
    have later (R : Rests subscriber (subscriber.call first)) (hnone : subscriber.took first = []) :
        Reassembled (subscriber.buckets.map (·.id))
          (parse (subscriber.repairBuffer ++ received subscriber (first :: calls)))
          (((subscriber.call first).1.run calls).1,
            (subscriber.call first).2 ++ ((subscriber.call first).1.run calls).2) := by
      have A := ih (R.repairOpen.trans hopen) (by rwa [R.repairBuffer]) hlater
      rw [R.repairBuffer, hids] at A
      refine ⟨?_, ?_, ?_⟩
      · rw [repairs_append, R.repairs, received, hnone]
        exact A.repairs
      · rw [received, hnone]
        exact A.repairOpen
      · rw [received, hnone]
        exact A.repairBuffer
    cases first with
    | drainUdp => exact later rests_drainUdp rfl
    | nak => exact later (rests_nak hfirst) rfl
    | deliver => exact later rests_deliver rfl
    | drainTcp recvs =>
      obtain ⟨-, hevents, -, hopen', hbuffer⟩ :=
        call_drainTcp hopen (receives_of_stays hopen hfirst)
      rw [received, ← List.append_assoc, parse_append]
      cases hparse : parse (subscriber.repairBuffer ++ subscriber.took (.drainTcp recvs)) with
      | mk frames rest =>
        rw [hparse] at hevents hopen' hbuffer
        cases rest with
        | none =>
          -- the rest of the stream is never read
          obtain ⟨R, -⟩ := run_closed hopen' hlater
          refine ⟨?_, R.repairOpen.trans hopen', R.repairBuffer.trans hbuffer⟩
          rw [repairs_append, hevents, repairs_append, repairs_resync,
            repairs_onAnswers _ _ [], R.repairs]
          simp [acted, resync]
        | some tail =>
          have hheld' : (subscriber.call (.drainTcp recvs)).1.repairBuffer = tail := hbuffer
          have A := ih hopen'
            (by rw [hheld']; exact not_ready_of_parse (congrArg Prod.snd hparse)) hlater
          rw [hheld', hids] at A
          refine ⟨?_, A.repairOpen, A.repairBuffer⟩
          rw [repairs_append, hevents, repairs_append, repairs_resync, A.repairs,
            repairs_onAnswers _ _ tail, resync, if_neg (by simp), List.append_nil]
          exact acted_append

/-! ## The stream as a whole -/

/-- Less than a frame is held. -/
def Unfinished (bytes : Bytes) : Prop :=
  bytes.length < 12 ∨ bytes.length < 12 + (getU16 (bytes.drop 10)).toNat

theorem unfinished_of_not_ready (h : ¬repairFormat.Ready bytes) : Unfinished bytes := by
  rw [ready_iff] at h
  rw [Unfinished]
  omega

/-- What is parsed of the front of a stream is parsed of the stream. -/
theorem acted_front {ids : List Nat} {stream : Bytes} (h : bytes <+: stream) :
    acted ids (parse bytes) <+: acted ids (parse stream) ∧
    ((parse bytes).2 = none → parse stream = parse bytes) := by
  obtain ⟨rest, rfl⟩ := h
  rw [parse_append]
  rcases parse bytes with ⟨frames, _ | tail⟩
  · exact ⟨List.prefix_rfl, fun _ => rfl⟩
  · refine ⟨?_, nofun⟩
    rw [← @acted_append tail]
    exact List.prefix_append ..

/-- **Reassembly does not depend on the pieces and cannot jam.** On a connection that just opened,
and on which nothing but the subscriber's own drop ends it, take any stream in any pieces, over any
calls. What is acted on and whether the connection is dropped is what parsing the stream at once
gives, for all of it that was taken off. Between calls less than a frame is held, with room for
more. A call does to the buckets what the frames before a bad one do, and a full buffer always gives
it something to do. -/
theorem reassembles {calls : List Call} (hopen : subscriber.repairOpen = true)
    (hempty : subscriber.repairBuffer = [])
    (hstays : ∀ event ∈ (subscriber.run calls).2, event.Stays)
    {stream : Bytes} (hstream : received subscriber calls <+: stream) :
    let now := (subscriber.run calls).1
    let log := (subscriber.run calls).2
    let ids := subscriber.buckets.map (·.id)
    (received subscriber calls = stream ∨ now.repairOpen = false →
      repairs log = acted ids (parse stream) ∧
      (now.repairOpen = false ↔ (parse stream).2 = none)) ∧
    repairs log <+: acted ids (parse stream) ∧
    (now.repairOpen = false → now.repairBuffer = []) ∧
    Unfinished now.repairBuffer ∧ now.repairBuffer.length < REPAIR_BUF_CAP ∧
    ∀ before recvs after, calls = before ++ .drainTcp recvs :: after →
      let held := (subscriber.run before).1
      let bytes := held.repairBuffer ++ held.took (.drainTcp recvs)
      held.repairOpen = true →
      (held.call (.drainTcp recvs)).1.buckets = (onAnswers held.buckets (parse bytes).1).1 ∧
      ((parse bytes).2 = none → (held.call (.drainTcp recvs)).1.repairOpen = false) ∧
      (bytes.length = REPAIR_BUF_CAP → (parse bytes).1 ≠ [] ∨ (parse bytes).2 = none) := by
  intro now log ids
  have hnotReady : ¬repairFormat.Ready subscriber.repairBuffer := by
    rw [hempty, ready_iff]
    simp
  have A := run_reassembled hopen hnotReady hstays
  rw [hempty, List.nil_append] at A
  obtain ⟨hfront, hdropped⟩ := @acted_front (received subscriber calls) ids stream hstream
  have hclosed : now.repairOpen = false ↔ (parse (received subscriber calls)).2 = none := by
    rw [A.repairOpen, Option.isSome_eq_false_iff, Option.isNone_iff_eq_none]
  have hheld : ¬repairFormat.Ready now.repairBuffer := by
    rw [A.repairBuffer]
    cases hrest : (parse (received subscriber calls)).2 with
    | none => rwa [hempty] at hnotReady
    | some tail => exact not_ready_of_parse hrest
  refine ⟨?_, ?_, ?_, unfinished_of_not_ready hheld, length_lt_of_not_ready hheld, ?_⟩
  · intro hread
    have hsame : parse stream = parse (received subscriber calls) := by
      rcases hread with rfl | hread
      · rfl
      · exact hdropped (hclosed.mp hread)
    rw [hsame]
    exact ⟨A.repairs, hclosed⟩
  · rw [A.repairs]
    exact hfront
  · intro hnow
    rw [A.repairBuffer, hclosed.mp hnow]
    rfl
  · rintro before recvs after rfl held bytes hheldOpen
    rw [run_append] at hstays
    have hcall : ∀ event ∈ (held.call (.drainTcp recvs)).2, event.Stays := fun event hmem =>
      hstays event (List.mem_append_right _ (List.mem_append_left _ hmem))
    obtain ⟨-, -, hbuckets, hopen', -⟩ :=
      call_drainTcp hheldOpen (receives_of_stays hheldOpen hcall)
    refine ⟨hbuckets, fun hnone => ?_, fun hfull => ?_⟩
    · rw [hopen']
      exact congrArg Option.isSome hnone
    · refine parse_progress (by_contra fun hshort => ?_)
      exact absurd hfull (length_lt_of_not_ready hshort).ne

/-- A frame cut in two, and behind it one that lies about its length. -/
def hostile : Bytes :=
  putU16 0 ++ putU64 7 ++ putU16 0 ++ (putU16 0 ++ putU64 8 ++ putU16 5 ++ [1, 2, 3, 4, 5, 6])

theorem reassembles_hostile :
    let subscriber : Subscriber := { buckets := [{ id := 0 }], repairOpen := true }
    let calls : List Call :=
      [.drainTcp [.data (hostile.take 5), .data []], .deliver 0, .drainTcp [.data (hostile.drop 5)]]
    repairs (subscriber.run calls).2 = [.bucket 0 (.frame 7 none), .resync] ∧
    (parse hostile).2 = none := by
  intro subscriber calls
  have hstays : ∀ event ∈ (subscriber.run calls).2, event.Stays := by
    have hevents : (subscriber.run calls).2 = [.bucket 0 (.frame 7 none), .resync] := by decide
    simp [hevents, Event.Stays]
  have hread : received subscriber calls = hostile := by decide
  obtain ⟨hall, -⟩ := @reassembles subscriber calls rfl rfl hstays hostile (hread ▸ List.prefix_rfl)
  exact ⟨by decide, (hall (.inl hread)).2.mp (by decide)⟩

end Subscriber
end MegaFeed
