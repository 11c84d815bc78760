import MegaFeed.Verify.Loss
import MegaFeed.Verify.Pipeline

/-! # What the feed handler reports

`main` receives until the venue falls silent, publishes what it decodes, and ends every bucket's
stream. `main_reports`: whatever arrives and whenever, at its exit it has worked on exactly the
datagrams of the rounds it made, every bucket holds data messages and one end marker behind them,
the report balances with what went out, and the exit status says why it stopped. -/

namespace MegaFeed
namespace FeedHandler
open FeedPublisher (sentTo inBucket messages)

variable {bucketCount ringSize : Nat} [NeZero bucketCount] [NeZero ringSize]
  {handler : FeedHandler bucketCount ringSize}

/-! ## What was published -/

/-- A handler that has published data messages and counted them; `output` is what the
publisher put out. -/
structure Reports (publisher : FeedPublisher bucketCount ringSize)
    (handler : FeedHandler bucketCount ringSize)
    (output : FeedPublisher.Output) (msgs : List OrderMessage) : Prop where
  terminated : handler.decoder.Terminated
  data : ∀ msg ∈ msgs, msg.IsData
  publisher : (handler.publisher, output) = publisher.run (msgs.map .publish)
  published : handler.published = msgs.length

theorem reports_fresh (publisher : FeedPublisher bucketCount ringSize) :
    Reports publisher (fresh publisher) {} [] :=
  ⟨DeepPlusDecoder.terminated_empty, fun _ h => absurd h List.not_mem_nil, rfl, rfl⟩

theorem published_handOverAll (handler : FeedHandler bucketCount ringSize) (messages : List Bytes) :
    (handler.handOverAll messages).1.published =
      handler.published + (handler.decoder.updates messages).length := by
  induction messages generalizing handler with
  | nil => rfl
  | cons bytes messages ih =>
    have hrest := ih (handler.handOver bytes).1
    rw [DeepPlusDecoder.updates, List.length_append, ← Nat.add_assoc]
    exact hrest

theorem Reports.onPayload {publisher : FeedPublisher bucketCount ringSize}
    {output : FeedPublisher.Output}
    {msgs : List OrderMessage} (R : Reports publisher handler output msgs) (payload : Bytes) :
    ∃ updates, Reports publisher (handler.onPayload payload).1
      (output ++ (handler.onPayload payload).2.published) (msgs ++ updates) := by
  obtain ⟨messages, hdown, hpublished⟩ := onPayload_handsOver handler payload
  obtain ⟨hdecoder, hrun⟩ := handOverAll_eq handler messages
  obtain ⟨hterminated, hdata⟩ := R.terminated.updates messages
  simp only [downstream, Prod.mk.injEq] at hdown
  obtain ⟨hpublisher, houtput⟩ := Prod.ext_iff.mp R.publisher
  refine ⟨handler.decoder.updates messages, ?_, ?_, ?_, ?_⟩
  · rw [hdown.1, hdecoder]
    exact hterminated
  · exact fun msg hmem => (List.mem_append.mp hmem).elim (R.data msg) (hdata msg)
  · rw [List.map_append, FeedPublisher.run_append, hdown.2.1, hpublished, ← hpublisher,
      ← houtput, ← hrun]
  · rw [hdown.2.2, published_handOverAll, R.published, List.length_append]

/-! ## Receiving -/

namespace Receiving

variable {receiving : Receiving bucketCount ringSize} {started : UInt64}

theorem drain_append (receiving : Receiving bucketCount ringSize) (l₁ l₂ : List (Bytes × UInt64)) :
    receiving.drain (l₁ ++ l₂) = (receiving.drain l₁).drain l₂ := by
  induction l₁ generalizing receiving with
  | nil => rfl
  | cons first l₁ ih => exact ih _

/-- Why the loop was left after `rounds`, with `later` to come. -/
def Reason (started : UInt64) (receiving : Receiving bucketCount ringSize)
    (rounds later : List Wake) :
    Option Ended → Prop
  | none => later = []
  | some .stopped => ∃ wake, later.head? = some wake ∧ wake.stop = true
  | some .idle => receiving.lastReceive ≠ 0 ∧ ∃ wake, rounds.getLast? = some wake ∧
    wake.now - receiving.lastReceive > FEED_IDLE_STOP_MS * 1000000
  | some .neverHeardAnything => receiving.lastReceive = 0 ∧ ∃ wake, rounds.getLast? = some wake ∧
    wake.now - started > FEED_START_TIMEOUT_MS * 1000000

omit [NeZero bucketCount] [NeZero ringSize] in
theorem Reason.cons {rounds later : List Wake} {ended : Option Ended}
    (h : Reason started receiving rounds later ended) (first : Wake) :
    Reason started receiving (first :: rounds) later ended := by
  have hlast {wake : Wake} (h : rounds.getLast? = some wake) :
      (first :: rounds).getLast? = some wake := by
    rw [List.getLast?_cons, h, Option.getD_some]
  cases ended with
  | none => exact h
  | some ended =>
    cases ended with
    | stopped => exact h
    | idle =>
      obtain ⟨hheard, wake, hwake, hsilent⟩ := h
      exact ⟨hheard, wake, hlast hwake, hsilent⟩
    | neverHeardAnything =>
      obtain ⟨hheard, wake, hwake, hsilent⟩ := h
      exact ⟨hheard, wake, hlast hwake, hsilent⟩

/-- The loop drains round after round until there is a reason to leave. -/
theorem loop_spec (started : UInt64) (receiving : Receiving bucketCount ringSize)
    (wakes : List Wake) :
    ∃ rounds later, wakes = rounds ++ later ∧
      (loop started receiving wakes).1 = receiving.drain (rounds.flatMap (·.datagrams)) ∧
      Reason started (loop started receiving wakes).1 rounds later
        (loop started receiving wakes).2 := by
  induction wakes generalizing receiving with
  | nil => exact ⟨[], [], rfl, rfl, rfl⟩
  | cons wake wakes ih =>
    -- the round ends the loop, or the rest of the wakes goes on from what it drained
    have hlast : [wake].flatMap (·.datagrams) = wake.datagrams := List.flatMap_singleton ..
    have hon : ∃ rounds later, wake :: wakes = rounds ++ later ∧
        (loop started (receiving.drain wake.datagrams) wakes).1 =
          receiving.drain (rounds.flatMap (·.datagrams)) ∧
        Reason started (loop started (receiving.drain wake.datagrams) wakes).1 rounds later
          (loop started (receiving.drain wake.datagrams) wakes).2 := by
      obtain ⟨rounds, later, rfl, hdrain, hreason⟩ := ih (receiving.drain wake.datagrams)
      refine ⟨wake :: rounds, later, rfl, ?_, hreason.cons wake⟩
      rw [hdrain, List.flatMap_cons, drain_append]
    rw [loop]
    split
    · next hstop => exact ⟨[], wake :: wakes, rfl, rfl, wake, rfl, hstop⟩
    dsimp only
    split
    · next hheard =>
      split
      · next hidle => exact ⟨[wake], wakes, rfl, by rw [hlast], hheard, wake, rfl, hidle⟩
      · exact hon
    · next hheard =>
      split
      · next hlate => exact ⟨[wake], wakes, rfl, by rw [hlast], not_not.mp hheard, wake, rfl, hlate⟩
      · exact hon

/-- What draining does: `on_payload` on one datagram after the other, cut to the buffer. -/
theorem drain_spec (receiving : Receiving bucketCount ringSize)
    (datagrams : List (Bytes × UInt64)) :
    let run := receiving.handler.run (datagrams.map (·.1.take BUFFER_SIZE))
    (receiving.drain datagrams).handler = run.1 ∧
    (receiving.drain datagrams).packets = receiving.packets + datagrams.length ∧
    (receiving.drain datagrams).output.published = receiving.output.published ++ run.2.published ∧
    (receiving.drain datagrams).lastReceive = (datagrams.getLast?.map (·.2)).getD
      receiving.lastReceive := by
  induction datagrams generalizing receiving with
  | nil =>
      exact ⟨rfl, rfl, congrArg₂ FeedPublisher.Output.mk (List.append_nil _).symm
        (List.append_nil _).symm, rfl⟩
  | cons first datagrams ih =>
    let next : Receiving bucketCount ringSize :=
      { handler := (receiving.handler.onPayload (first.1.take BUFFER_SIZE)).1
        packets := receiving.packets + 1
        lastReceive := first.2
        output := receiving.output ++ (receiving.handler.onPayload (first.1.take BUFFER_SIZE)).2 }
    obtain ⟨hhandler, hpackets, houtput, hlast⟩ := ih next
    have hdrain : receiving.drain (first :: datagrams) = next.drain datagrams := rfl
    rw [hdrain]
    refine ⟨hhandler, hpackets.trans ?_, houtput.trans output_append_assoc, hlast.trans ?_⟩
    · rw [List.length_cons, Nat.add_assoc, Nat.add_comm 1]
    · rw [List.getLast?_cons]
      cases datagrams.getLast? <;> rfl

end Receiving

/-! ## The report -/

theorem sum_toList {n : Nat} (buckets : Vector α n) (f : α → Nat) :
    (buckets.toList.map f).sum = ∑ b : Fin n, f buckets[b] := by
  rw [← List.sum_ofFn]
  refine congrArg List.sum (List.ext_getElem (by simp) fun i _ _ => ?_)
  simp

/-- A list has as many elements as its parts. -/
theorem sum_filter_length {n : Nat} {f : α → Nat} {l : List α} (h : ∀ x ∈ l, f x < n) :
    ∑ b : Fin n, (l.filter (f · = b)).length = l.length := by
  induction l with
  | nil => simp
  | cons first l ih =>
    obtain ⟨hfirst, hl⟩ := List.forall_mem_cons.mp h
    have hone : ∀ b : Fin n, ((first :: l).filter (f · = b)).length =
        (if ⟨f first, hfirst⟩ = b then 1 else 0) + (l.filter (f · = b)).length := by
      intro b
      by_cases heq : f first = b
      · simp [heq, Nat.add_comm]
      · have : (⟨f first, hfirst⟩ : Fin n) ≠ b := fun h => heq (congrArg Fin.val h)
        simp [heq, this]
    simp only [hone, Finset.sum_add_distrib, ih hl, Finset.sum_ite_eq, Finset.mem_univ, if_true,
      List.length_cons, Nat.add_comm 1]

/-- After any payloads what was published balances: it was sent, or dropped on purpose. -/
theorem Reports.balance {lossPercent : Nat} {lossRng : Stream' UInt64}
    {output : FeedPublisher.Output}
    {msgs : List OrderMessage}
    (R : Reports (.init lossPercent lossRng : FeedPublisher bucketCount ringSize) handler
      output msgs) :
    handler.report.published = output.assigned.length ∧
    handler.report.dropped + output.sent.length = handler.report.published := by
  have T := (@FeedPublisher.tallied_init bucketCount ringSize lossPercent lossRng).run msgs
  rw [← R.publisher] at T
  simp only [List.nil_append] at T
  have hpublished : handler.published = output.assigned.length := by
    have hassigned :=
      MegaFeed.assigned_run (.init lossPercent lossRng : FeedPublisher bucketCount ringSize) msgs
    rw [← R.publisher] at hassigned
    rw [R.published, ← hassigned, List.length_map]
  refine ⟨hpublished, ?_⟩
  have hsent : ∀ p ∈ output.sent, p.destination < bucketCount := by
    intro p hp
    obtain ⟨a, ha, rfl⟩ := List.mem_map.mp (T.thinned.subset hp)
    exact T.known a ha
  have hsum : ∑ b : Fin bucketCount,
      (handler.publisher.buckets[b].dropped + (sentTo output.sent b).length) =
      ∑ b : Fin bucketCount, (inBucket output.assigned b).length :=
    Finset.sum_congr rfl fun b _ => (T.counted b b.isLt).2
  rw [Finset.sum_add_distrib] at hsum
  rw [report, hpublished]
  dsimp only
  rw [sum_toList, ← sum_filter_length hsent, ← sum_filter_length T.known]
  exact hsum

/-- `on_payload` on one payload after the other. -/
theorem Reports.run {publisher : FeedPublisher bucketCount ringSize} {output : FeedPublisher.Output}
    {msgs : List OrderMessage} (R : Reports publisher handler output msgs) (payloads : List Bytes) :
    ∃ updates, Reports publisher (handler.run payloads).1
      (output ++ (handler.run payloads).2.published)
      (msgs ++ updates) := by
  induction payloads generalizing handler output msgs with
  | nil =>
    refine ⟨[], ?_⟩
    have hempty : output ++ ({} : FeedPublisher.Output) = output :=
      congrArg₂ FeedPublisher.Output.mk (List.append_nil _) (List.append_nil _)
    rw [List.append_nil]
    exact hempty.symm ▸ R
  | cons payload payloads ih =>
    obtain ⟨updates, R'⟩ := R.onPayload payload
    obtain ⟨updates', R''⟩ := ih R'
    refine ⟨updates ++ updates', ?_⟩
    rw [List.append_assoc, output_append_assoc] at R''
    exact R''

omit [NeZero bucketCount] in
/-- The end markers change no number of the report. -/
theorem report_finish (handler : FeedHandler bucketCount ringSize) :
    { handler with publisher := handler.publisher.finish.1 }.report = handler.report := by
  simp only [report, FeedPublisher.finish, Vector.toList_map, List.map_map]
  rfl

/-- After the end markers every bucket holds its data messages and one marker behind them. -/
theorem messages_finish {publisher publisher' : FeedPublisher bucketCount ringSize}
    {output : FeedPublisher.Output}
    {msgs : List OrderMessage} (hdata : ∀ msg ∈ msgs, msg.IsData)
    (hrun : (publisher', output) = publisher.run (msgs.map .publish)) {b : Nat}
    (hb : b < bucketCount) :
    ∃ earlier, messages (output ++ publisher'.finish.2).assigned b =
      earlier ++ [FeedPublisher.endMessage] ∧
      ∀ msg ∈ earlier, msg.IsData := by
  have hone : inBucket publisher'.finish.2.assigned b =
      [⟨b, publisher'.buckets[b].nextSequence, FeedPublisher.endMessage⟩] := by
    simp [FeedPublisher.finish, FeedPublisher.inBucket_mapIdx, hb]
  refine ⟨messages output.assigned b, ?_, fun msg hmsg => ?_⟩
  · rw [FeedPublisher.assigned_append, FeedPublisher.messages_append, messages, messages, hone]
    rfl
  · obtain ⟨a, ha, rfl⟩ := List.mem_map.mp hmsg
    refine hdata a.msg ?_
    have hassigned := MegaFeed.assigned_run publisher msgs
    rw [← hrun] at hassigned
    exact hassigned ▸ List.mem_map_of_mem (List.mem_of_mem_filter ha)

/-- What `main` does until it exits. -/
theorem main_spec {started : UInt64} {wakes : List Wake} {stop : Bool}
    {exit : Exit bucketCount ringSize}
    (h : main handler started wakes stop = some exit) :
    ∃ rounds later receiving ended, wakes = rounds ++ later ∧
      receiving = Receiving.drain { handler } (rounds.flatMap (·.datagrams)) ∧
      Receiving.Reason started receiving rounds later (some ended) ∧
      exit.handler = { receiving.handler with publisher := receiving.handler.publisher.finish.1 } ∧
      exit.output = receiving.output.published ++ receiving.handler.publisher.finish.2 ∧
      exit.packets = receiving.packets ∧
      exit.status = if ended = .neverHeardAnything then 1 else if stop then 130 else 0 := by
  obtain ⟨rounds, later, hwakes, hdrain, hreason⟩ := Receiving.loop_spec started { handler } wakes
  rw [main] at h
  generalize Receiving.loop started { handler } wakes = result at h hdrain hreason
  obtain ⟨receiving, ended⟩ := result
  cases ended with
  | none => cases h
  | some ended =>
    obtain rfl := Option.some.inj h
    exact ⟨rounds, later, receiving, ended, hwakes, hdrain, hreason, rfl, rfl, rfl, rfl⟩

/-- **What the feed handler reports.** Let `main` exit. It has worked on the datagrams of the rounds
it made, all of them and no others, each cut to the buffer. What it published was sent or dropped on
purpose, and the report says how much; in every bucket data messages are followed by one end marker.
It exits with 1 if nothing ever came in time, with 0 if the venue fell silent, and with 130 if it
was interrupted. -/
theorem main_reports {lossPercent : Nat} {lossRng : Stream' UInt64} {started : UInt64}
    {wakes : List Wake}
    {stop : Bool} {exit : Exit bucketCount ringSize}
    (h : main (fresh (.init lossPercent lossRng)) started wakes stop = some exit)
    (hclock : ∀ wake ∈ wakes, ∀ datagram ∈ wake.datagrams, datagram.2 ≠ 0)
    (hstop : ∀ wake ∈ wakes, wake.stop = true → stop = true) :
    ∃ rounds, rounds <+: wakes ∧
      let datagrams := rounds.flatMap (·.datagrams)
      let run := (fresh (.init lossPercent lossRng : FeedPublisher bucketCount ringSize)).run
        (datagrams.map (·.1.take BUFFER_SIZE))
      exit.packets = datagrams.length ∧
      exit.output = run.2.published ++ run.1.publisher.finish.2 ∧
      exit.handler.report = run.1.report ∧
      exit.handler.report.published = run.2.published.assigned.length ∧
      exit.handler.report.dropped + run.2.published.sent.length = exit.handler.report.published ∧
      (∀ b < bucketCount, ∃ msgs, messages exit.output.assigned b =
        msgs ++ [FeedPublisher.endMessage] ∧
        ∀ msg ∈ msgs, msg.IsData) ∧
      (exit.status = 1 ∧ datagrams = [] ∧ (∃ wake, rounds.getLast? = some wake ∧
          wake.now - started > FEED_START_TIMEOUT_MS * 1000000) ∨
        exit.status = 0 ∧ stop = false ∧ (∃ wake last, rounds.getLast? = some wake ∧
          datagrams.getLast? = some last ∧ wake.now - last.2 > FEED_IDLE_STOP_MS * 1000000) ∨
        exit.status = 130 ∧ stop = true) := by
  obtain ⟨rounds, later, receiving, ended, hwakes, hreceiving, hreason, hhandler, houtput,
      hpackets, hstatus⟩ :=
    main_spec h
  obtain ⟨hrun, hcount, hpublished, hlast⟩ := Receiving.drain_spec
    ({ handler := fresh (.init lossPercent lossRng) } : Receiving bucketCount ringSize)
    (rounds.flatMap (·.datagrams))
  rw [← hreceiving] at hrun hcount hpublished hlast
  obtain ⟨msgs, R⟩ :=
    (reports_fresh (.init lossPercent lossRng : FeedPublisher bucketCount ringSize)).run
    ((rounds.flatMap (·.datagrams)).map (·.1.take BUFFER_SIZE))
  have hreport : exit.handler.report = receiving.handler.report := by rw [hhandler, report_finish]
  have hsent : ∀ p : FeedPublisher.Output, ({} : FeedPublisher.Output) ++ p = p := fun _ => rfl
  rw [hsent] at R
  obtain ⟨hbalance, hdropped⟩ := R.balance
  refine ⟨rounds, hwakes ▸ List.prefix_append ..,
    hpackets.trans (hcount.trans (Nat.zero_add _)), ?_,
    hreport.trans (by rw [hrun]), ?_, ?_, fun b hb => ?_, ?_⟩
  · rw [houtput, hpublished, hsent, hrun]
  · rw [hreport, hrun, hbalance]
  · rw [hreport, hrun, hdropped]
  · rw [houtput, hpublished, hsent, hrun]
    exact messages_finish R.data R.publisher hb
  · rw [hstatus]
    cases ended with
    | stopped =>
      obtain ⟨wake, hhead, hwake⟩ := hreason
      have hmem : wake ∈ wakes := hwakes ▸ List.mem_append_right _ (List.mem_of_mem_head? hhead)
      have hstopped := hstop wake hmem hwake
      rw [hstopped]
      exact .inr (.inr ⟨rfl, rfl⟩)
    | idle =>
      obtain ⟨hheard, wake, hwake, hsilent⟩ := hreason
      rw [if_neg (by decide)]
      cases stop with
      | true => exact .inr (.inr ⟨rfl, rfl⟩)
      | false =>
        refine .inr (.inl ⟨rfl, rfl, wake, ?_⟩)
        cases hfinal : (rounds.flatMap (·.datagrams)).getLast? with
        | none =>
          rw [hfinal] at hlast
          exact absurd hlast hheard
        | some last =>
          rw [hfinal] at hlast
          rw [hlast] at hsilent
          exact ⟨last, hwake, rfl, hsilent⟩
    | neverHeardAnything =>
      obtain ⟨hnothing, wake, hwake, hlate⟩ := hreason
      refine .inl ⟨rfl, ?_, wake, hwake, hlate⟩
      cases hfinal : (rounds.flatMap (·.datagrams)).getLast? with
      | none => exact List.getLast?_eq_none_iff.mp hfinal
      | some last =>
        rw [hfinal] at hlast
        obtain ⟨round, hround, hmem⟩ := List.mem_flatMap.mp (List.mem_of_getLast? hfinal)
        exact absurd (hlast.symm.trans hnothing)
          (hclock round (hwakes ▸ List.mem_append_left _ hround) last hmem)

/-- One packet of the venue with a heartbeat behind it, and then silence. -/
theorem main_reports_silence :
    let wakes : List Wake := [⟨false, [(Pipeline.openPacket, 5), (packetBytes 0 0 2 [], 6)], 7⟩,
      ⟨false, [], 3000000000⟩]
    ∃ exit rounds, main (fresh (.init 0 (Stream'.const 0) : FeedPublisher 1 1)) 1 wakes
      false = some exit ∧
      rounds <+: wakes ∧ exit.packets = (rounds.flatMap (·.datagrams)).length ∧
      exit.packets = 2 ∧ exit.status = 0 ∧ exit.handler.report.published = 1 := by
  intro wakes
  let handler : FeedHandler 1 1 := fresh (.init 0 (Stream'.const 0))
  have hmain : (main handler 1 wakes false).map (fun exit => (exit.packets, exit.status,
      exit.handler.report.published)) = some (2, 0, 1) := by decide +kernel
  obtain ⟨exit, hexit, hvalues⟩ := Option.map_eq_some_iff.mp hmain
  obtain ⟨rounds, hrounds, hpackets, -⟩ := main_reports hexit (by decide) (by decide)
  simp only [Prod.mk.injEq] at hvalues
  exact ⟨exit, rounds, hexit, hrounds, hpackets, hvalues⟩

end FeedHandler
end MegaFeed
