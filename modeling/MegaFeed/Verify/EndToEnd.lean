import MegaFeed.Verify.Healing
import MegaFeed.Verify.Packetization

/-! # From the venue to the screen

Where the feed handler counted no gap, its packets brought the venue's stream without a hole
(`noGap_of_captureGaps`), so the golden books are the venue's (`FeedHandler.golden_venue`). A
consumer that has lost nothing up to the end mark was handed all updates from its start on.
Together: what a visualizer shows at a level that was updated since it joined is what the venue has
there (`visualizer_shows_venue`). -/

namespace MegaFeed
open FeedPublisher Subscriber LastWrite

namespace FeedHandler

variable {bucketCount ringSize : Nat} [NeZero bucketCount] [NeZero ringSize]
  {handler : FeedHandler bucketCount ringSize} {publisher : FeedPublisher bucketCount ringSize}
  {stream : Nat → Bytes} {payloads : List Bytes}

theorem noGap_snoc : handler.NoGap (payloads ++ [payload]) ↔ handler.NoGap payloads ∧
    ∀ header ∈ bearing payload, (handler.run payloads).1.expected = 0 ∨
      header.first ≤ (handler.run payloads).1.expected.toNat := by
  induction payloads generalizing handler with
  | nil => simp only [List.nil_append, NoGap, run, and_true, true_and]
  | cons first payloads ih => rw [List.cons_append, NoGap, NoGap, ih, run_cons, and_assoc]

/-- A handler that has counted no gap has met none. -/
theorem noGap_of_captureGaps (publisher : FeedPublisher bucketCount ringSize)
    (hfit : ∀ payload ∈ payloads, NoOverflow payload)
    (h : ((fresh publisher).run payloads).1.captureGaps = 0) :
    (fresh publisher).NoGap payloads := by
  induction payloads using List.reverseRecOn with
  | nil => trivial
  | append_singleton payloads payload ih =>
    obtain ⟨hearlier, hlast⟩ := List.forall_mem_append.mp hfit
    have hcounted := (counted_run publisher hearlier).gaps_le
    rw [(run_snoc _ payloads payload).1] at h
    cases hbearing : bearing payload with
    | none =>
      rw [(onPayload_other _ hbearing).2.2.1] at h
      refine noGap_snoc.mpr ⟨ih hearlier h, fun header hmem => ?_⟩
      rw [hbearing] at hmem
      cases hmem
    | some header =>
      have htook := onPayload_bearing ((fresh publisher).run payloads).1 hbearing
        (hlast payload (.head _) header hbearing)
      have hgaps := htook.captureGaps hcounted
      rw [h, UInt64.toNat_zero] at hgaps
      have hzero : ((fresh publisher).run payloads).1.captureGaps = 0 := UInt64.toNat_inj.mp (by
        rw [UInt64.toNat_zero]
        omega)
      refine noGap_snoc.mpr ⟨ih hearlier hzero, fun header' hmem => ?_⟩
      obtain rfl := Option.some.inj (hbearing.symm.trans hmem)
      by_cases hnone : ((fresh publisher).run payloads).1.expected.toNat = 0
      · exact .inl (UInt64.toNat_inj.mp hnone)
      · rw [if_neg hnone] at hgaps
        exact .inr (by omega)

/-- What the venue sent from number `first` on, up to the number expected next. -/
def sentBy (stream : Nat → Bytes) (first expected : Nat) : List Bytes :=
  (List.range' first (expected - first)).map stream

/-- The size at no level reaches 2^32. -/
def Fits32 (messages : List Bytes) : Prop :=
  ∀ before, before <+: messages → ∀ place, (VenueBook.run ∅ before).depth place < 2 ^ 32

theorem decoder_handOverAll (publisher : FeedPublisher bucketCount ringSize)
    (messages : List Bytes) :
    ((fresh publisher).handOverAll messages).1.decoder = DeepPlusDecoder.run {} messages :=
  (handOverAll_eq (fresh publisher) messages).1

theorem bounded_run {messages before : List Bytes} (h : GapFree ∅ messages)
    (hfits : Fits32 messages)
    (hbefore : before <+: messages) : Bounded (DeepPlusDecoder.run {} before).levels := by
  intro place total hsome
  rw [DeepPlusDecoder.levelSize_run (h.of_prefix hbefore), DeepPlusDecoder.positive] at hsome
  split at hsome
  · cases hsome
  · cases hsome
    exact hfits before hbefore place

/-- The golden books of a handler that was handed a complete stream are the venue's. -/
theorem mirrors_handOverAll {lossPercent : Nat} {lossRng : Stream' UInt64} {messages : List Bytes}
    (h : GapFree ∅ messages) (hfits : Fits32 messages) :
    let handler :=
      ((fresh (init lossPercent lossRng : FeedPublisher bucketCount ringSize)).handOverAll
        messages).1
    Mirrors handler.publisher handler.decoder.levels := by
  suffices ∀ before, before <+: messages →
      let handler :=
        ((fresh (init lossPercent lossRng : FeedPublisher bucketCount ringSize)).handOverAll
          before).1
      Mirrors handler.publisher handler.decoder.levels from this messages List.prefix_rfl
  intro before hb
  induction before using List.reverseRecOn with
  | nil => exact mirrors_init
  | append_singleton before bytes ih =>
    have hbefore := (List.prefix_append _ _).trans hb
    have hbound := bounded_run h hfits hbefore
    have hbound' := bounded_run h hfits hb
    rw [← decoder_handOverAll (init lossPercent lossRng : FeedPublisher bucketCount
      ringSize)] at hbound hbound'
    simp only [handOverAll_append, handOverAll] at hbound' ⊢
    exact mirrors_handOver (ih hbefore) hbound hbound'

/-- A handler that has counted no gap in packets of a venue's stream has the venue's books. -/
theorem golden_venue {lossPercent : Nat} {lossRng : Stream' UInt64} {first : Nat}
    (hstream : ∀ payload ∈ payloads, OfStream stream payload)
    (hfirst : firstNumber payloads = some first)
    (hgaps : ((fresh (init lossPercent lossRng : FeedPublisher bucketCount ringSize)).run
      payloads).1.captureGaps = 0) :
    let handler :=
      ((fresh (init lossPercent lossRng : FeedPublisher bucketCount ringSize)).run payloads).1
    let sent := sentBy stream first handler.expected.toNat
    GapFree ∅ sent → Fits32 sent → ∀ place,
      (handler.publisher.goldenLevel place).map (fun size => (size.toNat : Int)) =
        DeepPlusDecoder.positive ((VenueBook.run ∅ sent).depth place) := by
  intro handler sent hgapfree hfits place
  have hfit : ∀ payload ∈ payloads, NoOverflow payload :=
    fun payload hmem header hbearing => (hstream payload hmem header hbearing).1
  have hhanded := fresh_handed_eq_span hstream rfl (noGap_of_captureGaps _ hfit hgaps)
  rw [hfirst, Option.elim_some] at hhanded
  have hbytes : ((fresh (init lossPercent lossRng : FeedPublisher bucketCount ringSize)).run
      payloads).2.handed.map (·.bytes) = sent := by
    rw [hhanded, span, List.map_map]
    rfl
  have hdown :=
    (@run_published bucketCount ringSize _ _ (fresh (init lossPercent lossRng)) payloads hfit).2
  rw [hbytes] at hdown
  simp only [downstream, Prod.mk.injEq] at hdown
  have hpublisher : handler.publisher = _ := hdown.2.1
  rw [hpublisher, (mirrors_handOverAll hgapfree hfits).same, decoder_handOverAll,
    DeepPlusDecoder.levelSize_run hgapfree]

end FeedHandler

namespace Pipeline

variable {bucketCount ringSize count : Nat} [NeZero bucketCount] [NeZero ringSize]
  {setup : Setup count}
  {pipeline : Pipeline bucketCount ringSize count}

/-- The handler after some payloads, and after the end marks if it is done. -/
def handlerAfter (setup : Setup count) (payloads : List Bytes) (finished : Bool) :
    FeedHandler bucketCount ringSize :=
  let handler :=
    ((FeedHandler.fresh (FeedPublisher.init setup.lossPercent setup.lossRng)).run payloads).1
  if finished then { handler with publisher := handler.publisher.finish.1 } else handler

/-- The feed handler has been fed packets of the capture, and may have sent the end marks since. -/
structure Fed (setup : Setup count) (pipeline : Pipeline bucketCount ringSize count) : Prop where
  received : ∀ payload ∈ pipeline.received, ∃ packet ∈ setup.capture,
    payload = packet.take FeedHandler.BUFFER_SIZE
  handler : pipeline.handler = handlerAfter setup pipeline.received pipeline.finished

theorem Reachable.fed (h : Reachable setup pipeline) : Fed setup pipeline := by
  induction h with
  | init => exact ⟨fun payload hmem => absurd hmem List.not_mem_nil, rfl⟩
  | @step pipeline _ _ hstep ih =>
    cases hstep with
    | replay _ => exact ⟨ih.received, ih.handler⟩
    | @receive packet hmem hopen _ =>
      have hhandler := ih.handler
      rw [hopen] at hhandler
      refine ⟨fun payload hpayload => ?_, ?_⟩
      · rcases List.mem_append.mp hpayload with hold | hnew
        · exact ih.received payload hold
        · exact ⟨packet, List.mem_of_mem_take hmem, List.mem_singleton.mp hnew⟩
      · simp only [afterPayload, hopen, hhandler, handlerAfter, Bool.false_eq_true, if_false,
          (FeedHandler.run_snoc _ _ _).1]
    | finish hopen _ =>
      have hhandler := ih.handler
      rw [hopen] at hhandler
      refine ⟨ih.received, ?_⟩
      simp only [afterFinish, hhandler, handlerAfter, Bool.false_eq_true, if_false, if_true]
    | consumer _ _ => exact ⟨ih.received, ih.handler⟩

/-- The end marks leave the golden books alone. -/
theorem goldenLevel_finish (publisher : FeedPublisher bucketCount ringSize) (place : Place) :
    publisher.finish.1.goldenLevel place = publisher.goldenLevel place := by
  rw [goldenLevel, goldenLevel]
  have hb : bucketOf place.symbol bucketCount < bucketCount := bucketOf_lt
  rcases call_bucket publisher .finish hb with ⟨hsame, -⟩ | ⟨hnumbers, -⟩
  · exact congrArg (fun bucket => bucket.golden.level place) hsame
  · exact congrArg (BookSet.level · place) (hnumbers.golden.trans BookSet.apply_endMessage)

/-- As long as the handler has counted no gap, the golden books are the venue's. -/
theorem Reachable.golden_venue (h : Reachable setup pipeline) {stream : Nat → Bytes} {first : Nat}
    (hstream : ∀ packet ∈ setup.capture,
      FeedHandler.OfStream stream (packet.take FeedHandler.BUFFER_SIZE))
    (hfirst : FeedHandler.firstNumber pipeline.received = some first)
    (hgaps : pipeline.handler.captureGaps = 0) :
    let sent := FeedHandler.sentBy stream first pipeline.handler.expected.toNat
    GapFree ∅ sent → FeedHandler.Fits32 sent → ∀ place,
      (pipeline.handler.publisher.goldenLevel place).map (fun size => (size.toNat : Int)) =
        DeepPlusDecoder.positive ((VenueBook.run ∅ sent).depth place) := by
  have F := h.fed
  have hreceived : ∀ payload ∈ pipeline.received, FeedHandler.OfStream stream payload := by
    intro payload hmem
    obtain ⟨packet, hpacket, rfl⟩ := F.received payload hmem
    exact hstream packet hpacket
  have hfields : pipeline.handler.captureGaps = (handlerAfter setup pipeline.received false :
        FeedHandler bucketCount ringSize).captureGaps ∧
      pipeline.handler.expected = (handlerAfter setup pipeline.received false :
        FeedHandler bucketCount ringSize).expected ∧
      ∀ place, pipeline.handler.publisher.goldenLevel place =
        (handlerAfter setup pipeline.received false :
        FeedHandler bucketCount ringSize).publisher.goldenLevel place := by
    rw [F.handler]
    cases pipeline.finished with
    | false => exact ⟨rfl, rfl, fun place => rfl⟩
    | true => exact ⟨rfl, rfl, goldenLevel_finish _⟩
  obtain ⟨hsame, hexpected, hlevels⟩ := hfields
  rw [hsame] at hgaps
  rw [hexpected]
  intro sent hgapfree hfits place
  rw [hlevels]
  exact FeedHandler.golden_venue hreceived hfirst hgaps hgapfree hfits place

/-- A consumer that is done and has lost nothing was handed every update from its start on. -/
theorem Reachable.handed_since (h : Reachable setup pipeline) {i : Fin count}
    {bucket : Subscriber.Bucket}
    (hbucket : bucket ∈ (pipeline.consumers i).subscriber.buckets) (hdone : bucket.done = true)
    (hlost : bucket.stats.unrecoverable = 0)
    (hstart : start (setup.session i).firstExpected.toNat (setup.session i).backfill.toNat
      (history bucket.id (pipeline.consumers i).log) = some S)
    (hmem : (n, msg) ∈ pipeline.bucketLog bucket.id) (hnames : msg.sets place ≠ none) :
    (n, msg) ∈ delivered (history bucket.id (pipeline.consumers i).log) ↔ S ≤ n := by
  have I := (h.world i).inv
  have heq := I.delivered_eq hbucket hstart hlost
  have hend := I.delivered_done hbucket hstart hlost hdone
  have K := I.tended.kept bucket hbucket
  obtain ⟨-, marker, hmarker, htype⟩ :=
    (K.running_of_start (start_rewind.trans hstart)).delivered_all K.booked hdone hlost
  obtain ⟨hpos, hlt, hget⟩ := mem_numberedFrom.mp hmem
  simp only [Pipeline.world] at heq hend hmarker
  -- the message behind the last one that was handed over is the end marker, and that names no level
  have hne : n ≠ S + (delivered (history bucket.id (pipeline.consumers i).log)).length := by
    rintro rfl
    obtain rfl := Option.some.inj (hget.symm.trans (I.published.records.mem_assigned.mp hmarker).2)
    refine hnames (if_neg fun hsets => ?_)
    have hletter : place.side.letter ≠ ascii 'E' := by cases place.side <;> decide
    exact hletter (hsets.1.symm.trans htype)
  rw [heq, mem_numberedFrom]
  exact ⟨fun hhanded => hhanded.1, fun hle => ⟨hle, by omega, hget⟩⟩

/-- A golden book is what its bucket's log makes. -/
theorem Reachable.goldenLevel_log (h : Reachable setup pipeline) (i : Fin count) (place : Place) :
    pipeline.handler.publisher.goldenLevel place =
      (replay BookSet.apply {} (pipeline.bucketLog (bucketOf place.symbol bucketCount))).level
        place := by
  rw [bucketLog, replay_numberedFrom, List.take_length, goldenLevel]
  exact congrArg (BookSet.level · place) ((h.world i).inv.published.records.golden _ bucketOf_lt)

/-- **From the venue to the screen.** The feed handler has counted no gap in the venue's stream, and
a consumer has lost nothing up to the end mark. Then the visualizer of a symbol shows, at every
level that was updated since the consumer's start, exactly what the venue has there, and nothing at
the other levels. One that starts with message 1 shows all of the venue's book. -/
theorem visualizer_shows_venue (h : Reachable setup pipeline) {stream : Nat → Bytes} {first S : Nat}
    (hstream : ∀ packet ∈ setup.capture,
      FeedHandler.OfStream stream (packet.take FeedHandler.BUFFER_SIZE))
    (hfirst : FeedHandler.firstNumber pipeline.received = some first)
    (hgaps : pipeline.handler.captureGaps = 0) {i : Fin count} {bucket : Subscriber.Bucket}
    (hbucket : bucket ∈ (pipeline.consumers i).subscriber.buckets) (hdone : bucket.done = true)
    (hlost : bucket.stats.unrecoverable = 0)
    (hstart : start (setup.session i).firstExpected.toNat (setup.session i).backfill.toNat
      (history bucket.id (pipeline.consumers i).log) = some S)
    (visualizer : Visualizer) (hempty : visualizer.book = {}) (hnul : 0 ∉ visualizer.symbol)
    (hid : bucket.id = visualizer.bucketId bucketCount) :
    let sent := FeedHandler.sentBy stream first pipeline.handler.expected.toNat
    GapFree ∅ sent → FeedHandler.Fits32 sent → ∀ level,
      let place := placeOf visualizer.symbol level
      let shown :=
        ((visualizer.run (delivered (history bucket.id (pipeline.consumers i).log))).book.level
        level.1 level.2).map fun size => (size.toNat : Int)
      let updated := ∃ n msg, (n, msg) ∈ pipeline.bucketLog bucket.id ∧ S ≤ n ∧
        msg.sets place ≠ none
      (S = 1 ∨ updated → shown = DeepPlusDecoder.positive ((VenueBook.run ∅ sent).depth place)) ∧
      (¬updated → shown = none) := by
  intro sent hgapfree hfits level place shown updated
  obtain ⟨-, hsubset⟩ := h.log_sets hbucket
  have hiff {n msg} :=
    @Reachable.handed_since _ _ _ _ _ _ _ S n msg place h _ _ hbucket hdone hlost hstart
  have huntouched : ¬updated → shown = none := by
    intro hnone
    have hsets : ∀ entry ∈ delivered (history bucket.id (pipeline.consumers i).log),
        entry.2.sets place = none := by
      intro entry hmem
      by_contra hnames
      exact hnone ⟨entry.1, entry.2, hsubset hmem, (hiff (hsubset hmem) hnames).mp hmem, hnames⟩
    exact congrArg (Option.map _) (shown_untouched hempty hsets)
  refine ⟨fun hsince => ?_, huntouched⟩
  have htext : visualizer.symbol.takeWhile (· ≠ 0) = visualizer.symbol :=
    List.takeWhile_eq_self_iff.mpr fun b hb =>
      decide_eq_true (ne_of_mem_of_not_mem hb hnul)
  have hbucketId : bucket.id = bucketOf place.symbol bucketCount :=
    hid.trans (congrArg (bucketOf · bucketCount) htext)
  rw [← h.golden_venue hstream hfirst hgaps hgapfree hfits place]
  by_cases hnamed : ∃ entry ∈ pipeline.bucketLog bucket.id, entry.2.sets place ≠ none
  · obtain ⟨n, msg, L⟩ := exists_isLast sorted_numberedFrom hnamed
    have hsince' : S ≤ n := by
      rcases hsince with rfl | ⟨m, earlier, hmem, hle, hnames⟩
      · exact (mem_numberedFrom.mp L.mem).1
      · by_contra hlt
        exact hnames (L.last m earlier hmem (by omega))
    obtain ⟨source, hsource, hshown⟩ :=
      h.shown_golden hbucket hempty L ((hiff L.mem L.names).mpr hsince')
    have hlevel : source.golden.level place = pipeline.handler.publisher.goldenLevel place := by
      rw [hbucketId, Vector.getElem?_eq_getElem bucketOf_lt] at hsource
      rw [goldenLevel, Option.some.inj hsource]
    exact congrArg (Option.map _) (hshown.trans hlevel)
  · have hnone : ∀ entry ∈ pipeline.bucketLog bucket.id, entry.2.sets place = none :=
      fun entry hmem => not_not.mp fun hnames => hnamed ⟨entry, hmem, hnames⟩
    have hempty' : pipeline.handler.publisher.goldenLevel place = none := by
      rw [h.goldenLevel_log i, ← hbucketId]
      exact (BookSet.overwrites.read_untouched {} place hnone).trans (by simp [BookSet.level])
    have hnot : ¬updated := by
      rintro ⟨n, msg, hmem, -, hnames⟩
      exact hnames (hnone (n, msg) hmem)
    rw [hempty', huntouched hnot]
    rfl

/-- What the venue has sent: the Add and the Modify. -/
def openSent : List Bytes := [addBytes 0x38 7 100 5000, modifyBytes 7 60 5000]

theorem fits_openSent : FeedHandler.Fits32 openSent := by
  intro before hbefore place
  refine VenueBook.depth_le_sum.trans_lt ?_
  revert before
  simp only [← List.mem_inits]
  decide

/-- The consumer that joined live shows what the Modify has left of the order. -/
theorem visualizer_shows_venue_open :
    let shown := (Visualizer.run { symbol := [0x5a] } (delivered (history (openBucket 1).id
      (openDone.consumers 1).log))).book.level .bid 5000
    shown.map (fun size => (size.toNat : Int)) =
      DeepPlusDecoder.positive ((VenueBook.run ∅ openSent).depth ⟨[0x5a], .bid, 5000⟩) ∧
      shown = some 60 := by
  intro shown
  let stream (n : Nat) : Bytes := if n = 1 then addBytes 0x38 7 100 5000 else modifyBytes 7 60 5000
  have hsent : FeedHandler.sentBy stream 1 openDone.handler.expected.toNat = openSent := by
    decide +kernel
  have hstream : ∀ packet ∈ openSetup.capture,
      FeedHandler.OfStream stream (packet.take FeedHandler.BUFFER_SIZE) := by
    decide
  have hfirst : FeedHandler.firstNumber openDone.received = some 1 := by decide +kernel
  have hlog : (2, changeUpdate) ∈ openDone.bucketLog (openBucket 1).id := by decide +kernel
  have hshows := visualizer_shows_venue (S := 2) reachable_openDone hstream hfirst
    (by decide +kernel)
    (openBucket_mem 1) (by decide +kernel) (by decide +kernel) (by decide +kernel)
      { symbol := [0x5a] } rfl
    (by decide) (by decide +kernel)
  rw [hsent] at hshows
  exact ⟨(hshows (by decide) fits_openSent (.bid, 5000)).1
    (.inr ⟨2, changeUpdate, hlog, le_rfl, by decide⟩),
    by decide +kernel⟩

end Pipeline
end MegaFeed
