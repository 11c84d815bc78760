import MegaFeed.Verify.Levels
import MegaFeed.Verify.BookMirror

/-! # No false alarm

`Book.apply` checks the book after every single update. While the venue's own book is uncrossed
after every message, no check fails (`no_false_alarm`): the updates of a message lead through levels
that are those of the venue's book before it or after it, less what a message took off. -/

namespace MegaFeed
open Std (ExtTreeMap)
open DeepPlusDecoder FeedPublisher

/-! ## One book -/

/-- The check compares the best levels only, and so all of them. -/
theorem Book.uncrossed_iff {book : Book} :
    book.uncrossed = true ↔ ∀ bid ∈ book.bids, ∀ ask ∈ book.asks, bid < ask := by
  rw [Book.uncrossed]
  cases hbid : book.bids.minEntry? with
  | none =>
      exact ⟨fun _ bid hmem => absurd hmem (ExtTreeMap.minEntry?_eq_none hbid bid), fun _ => rfl⟩
  | some bid =>
  cases hask : book.asks.minEntry? with
  | none =>
      exact ⟨fun _ _ _ ask hmem => absurd hmem (ExtTreeMap.minEntry?_eq_none hask ask),
        fun _ => rfl⟩
  | some ask =>
  obtain ⟨hbidMem, hbest⟩ := ExtTreeMap.minEntry?_eq_some hbid
  obtain ⟨haskMem, hlowest⟩ := ExtTreeMap.minEntry?_eq_some hask
  simp only [decide_eq_true_eq]
  constructor
  · intro hlt bid' hbid' ask' hask'
    have hle : bid' ≤ bid.1 := Std.isLE_compare.mp (hbest bid' hbid')
    have hge : ask.1 ≤ ask' := Std.isLE_compare.mp (hlowest ask' hask')
    rw [Int64.lt_iff_toInt_lt] at hlt ⊢
    rw [Int64.le_iff_toInt_le] at hle hge
    omega
  · exact fun h => h bid.1 hbidMem ask.1 haskMem

theorem Book.apply_possible {book : Book} {msg : OrderMessage} {side : Side}
    (h : msg.type = side.letter) :
    (book.apply msg).2 = (book.apply msg).1.uncrossed := by
  cases side with
  | bid =>
    rw [Side.letter] at h
    rw [Book.apply, if_pos h]
  | ask =>
    rw [Side.letter] at h
    have hne : msg.type ≠ ascii 'B' := by rw [h]; decide
    rw [Book.apply, if_neg hne, if_pos h]

/-! ## Levels -/

namespace DeepPlusDecoder

/-- Every bid level lies below every ask level of its symbol. -/
def Uncrossed (levels : Levels) : Prop :=
  ∀ symbol bid ask, levelSize levels ⟨symbol, .bid, bid⟩ ≠ none →
    levelSize levels ⟨symbol, .ask, ask⟩ ≠ none → bid < ask

theorem Uncrossed.of_sub {levels levels' : Levels} (h : Uncrossed levels)
    (hsub : ∀ place, levelSize levels' place ≠ none → levelSize levels place ≠ none) :
    Uncrossed levels' :=
  fun symbol bid ask hbid hask => h symbol bid ask (hsub _ hbid) (hsub _ hask)

/-- Taking size off a level makes no new one. -/
theorem Uncrossed.addLevel {levels : Levels} (h : Uncrossed levels) (order : Order)
    (hdelta : delta ≤ 0) :
    Uncrossed (addLevel levels order delta timestamp).1 := by
  refine h.of_sub fun place hsome => ?_
  rw [levelSize_addLevel] at hsome
  split at hsome
  · intro hnone
    rw [hnone, Option.getD_none, Int.zero_add, positive_of_nonpos hdelta] at hsome
    exact hsome rfl
  · exact hsome

/-- While the venue's book is uncrossed, the levels are. -/
theorem uncrossed_run {stream : List Bytes} (h : GapFree ∅ stream)
    (huncrossed : (VenueBook.run ∅ stream).Uncrossed) : Uncrossed (run {} stream).levels := by
  intro symbol bid ask hbid hask
  rw [levelSize_run h] at hbid hask
  exact huncrossed symbol bid ask (fun hzero => hbid (positive_of_nonpos hzero.le))
    fun hzero => hask (positive_of_nonpos hzero.le)

/-- While the venue's totals fit 32 bits, those of the levels do. -/
theorem bounded_run {stream : List Bytes} (h : GapFree ∅ stream)
    (hbound : ∀ place, (VenueBook.run ∅ stream).depth place < 2 ^ 32) :
    Bounded (run {} stream).levels := by
  intro place total hsome
  rw [levelSize_run h, positive] at hsome
  split at hsome
  · cases hsome
  · cases hsome
    exact hbound place

end DeepPlusDecoder

/-! ## Publishing -/

section
variable {bucketCount ringSize : Nat} [NeZero bucketCount] [NeZero ringSize]
  {publisher : FeedPublisher bucketCount ringSize} {before after : Levels} {msg : OrderMessage}
  {updates : List OrderMessage}

/-- The golden book of a symbol. -/
def FeedPublisher.goldenBook (publisher : FeedPublisher bucketCount ringSize)
    (symbol : Bytes) : Book :=
  have hindex : bucketOf symbol bucketCount < bucketCount := bucketOf_lt
  publisher.buckets[bucketOf symbol bucketCount].golden.books.getD symbol {}

/-- The golden book of the message's symbol takes it and is possible. -/
def FeedPublisher.Takes (publisher : FeedPublisher bucketCount ringSize)
    (msg : OrderMessage) : Prop :=
  ((publisher.goldenBook (cString msg.symbol)).apply msg).2 = true

omit [NeZero ringSize] in
theorem takes_trade (h : msg.type = ascii 'T') : publisher.Takes msg := by
  rw [FeedPublisher.Takes, Book.apply_trade h]

/-- An update that leads to uncrossed levels leads to a possible book. -/
theorem Mirrors.takes {place : Place} (H : Mirrors publisher before)
    (h : Announces msg place before after)
    (hbound : Bounded after) (huncrossed : Uncrossed after) : publisher.Takes msg := by
  have hend : msg.type ≠ ascii 'E' := by rw [h.type]; cases place.side <;> decide
  have hindex : bucketOf (cString msg.symbol) bucketCount < bucketCount := bucketOf_lt
  -- the levels of the book the update leads to are those of the decoder
  have hlevel :
      ∀ side price,
        (((publisher.buckets[bucketOf (cString msg.symbol) bucketCount].golden.books.getD
      (cString msg.symbol) {}).apply msg).1.level side price).map (fun size => (size.toNat : Int)) =
        levelSize after ⟨cString msg.symbol, side, price⟩ := by
    intro side price
    rw [← (H.update h hbound).same, FeedPublisher.goldenLevel, golden_publish, if_pos rfl,
      BookSet.level_apply_same hend rfl]
  have hsome :
      ∀ side price, ((publisher.buckets[bucketOf (cString msg.symbol) bucketCount].golden.books.getD
      (cString msg.symbol) {}).apply msg).1.level side price ≠ none →
        levelSize after ⟨cString msg.symbol, side, price⟩ ≠ none := by
    intro side price hsome hnone
    rw [← hlevel, Option.map_eq_none_iff] at hnone
    exact hsome hnone
  rw [FeedPublisher.Takes, Book.apply_possible h.type, Book.uncrossed_iff]
  intro bid hbid ask hask
  refine huncrossed (cString msg.symbol) bid ask (hsome .bid bid ?_) (hsome .ask ask ?_)
  · exact Option.isSome_iff_ne_none.mp (ExtTreeMap.mem_iff_isSome_getElem?.mp hbid)
  · exact Option.isSome_iff_ne_none.mp (ExtTreeMap.mem_iff_isSome_getElem?.mp hask)

/-- All of a list of updates are taken, one after the other. -/
def FeedPublisher.TakesAll (publisher : FeedPublisher bucketCount ringSize) :
    List OrderMessage → Prop
  | [] => True
  | msg :: updates => publisher.Takes msg ∧ TakesAll (publisher.publish msg).1 updates

theorem Decoded.takesAll {d d' : DeepPlusDecoder} (D : Decoded d event d' updates)
    (H : Mirrors publisher d.levels) (hbound : Bounded d.levels) (hbound' : Bounded d'.levels)
    (huncrossed : Uncrossed d.levels) (huncrossed' : Uncrossed d'.levels) :
    publisher.TakesAll updates := by
  cases D with
  | unknown | ignore => trivial
  | trade htrade => exact ⟨takes_trade htrade, trivial⟩
  | add | remove | resize => exact ⟨H.takes addLevel_announces hbound' huncrossed', trivial⟩
  | @move left joined id order price size timestamp hsome hne hleft hjoined =>
    -- between its two updates the order is at neither price
    subst hleft hjoined
    have hleave : -(order.size.toNat : Int) ≤ 0 := by omega
    have hboundLeft : Bounded (addLevel d.levels order (-order.size.toNat) timestamp).1 :=
      hbound.addLevel order hleave
    exact ⟨H.takes addLevel_announces hboundLeft (huncrossed.addLevel order hleave),
      (H.update addLevel_announces hboundLeft).takes addLevel_announces hbound' huncrossed',
      trivial⟩
  | execute executed timestamp hsome htrade =>
    exact ⟨H.takes addLevel_announces hbound' huncrossed', takes_trade htrade, trivial⟩

theorem takesAll_append {updates' : List OrderMessage} : publisher.TakesAll (updates ++ updates') ↔
    publisher.TakesAll updates ∧ (publisher.run (updates.map .publish)).1.TakesAll updates' := by
  induction updates generalizing publisher with
  | nil => exact ⟨fun h => ⟨trivial, h⟩, fun h => h.2⟩
  | cons msg updates ih =>
    rw [List.cons_append, FeedPublisher.TakesAll, ih, FeedPublisher.TakesAll, and_assoc]
    rfl

theorem crossed_publish (h : publisher.Takes msg) {b : Nat} (hb : b < bucketCount) :
    (publisher.publish msg).1.buckets[b].golden.crossed = publisher.buckets[b].golden.crossed := by
  rw [golden_publish]
  split
  · next heq =>
    subst heq
    rw [FeedPublisher.Takes, FeedPublisher.goldenBook] at h
    rw [BookSet.apply]
    split
    · rfl
    · simp only [h, if_true]
  · rfl

theorem crossed_run (h : publisher.TakesAll updates) {b : Nat} (hb : b < bucketCount) :
    (publisher.run (updates.map .publish)).1.buckets[b].golden.crossed =
      publisher.buckets[b].golden.crossed := by
  induction updates generalizing publisher with
  | nil => rfl
  | cons msg updates ih => exact (ih h.2).trans (crossed_publish h.1 hb)

theorem run_publish_append (publisher : FeedPublisher bucketCount ringSize)
    (updates updates' : List OrderMessage) :
    (publisher.run ((updates ++ updates').map .publish)).1 =
      ((publisher.run (updates.map .publish)).1.run (updates'.map .publish)).1 := by
  induction updates generalizing publisher with
  | nil => rfl
  | cons msg updates ih => exact ih (publisher.publish msg).1

theorem assigned_run (publisher : FeedPublisher bucketCount ringSize)
    (updates : List OrderMessage) :
    (publisher.run (updates.map .publish)).2.assigned.map (·.msg) = updates := by
  induction updates generalizing publisher with
  | nil => rfl
  | cons msg updates ih => exact congrArg (msg :: ·) (ih (publisher.publish msg).1)

/-! ## From the live orders -/

theorem VenueBook.order_of_depth {book : VenueBook} (h : book.depth place ≠ 0) :
    ∃ entry ∈ book.toList, entry.2.place = place := by
  by_contra hnone
  push Not at hnone
  refine h (List.sum_eq_zero fun size hsize => ?_)
  obtain ⟨entry, hmem, rfl⟩ := List.mem_map.mp hsize
  exact if_neg (hnone entry hmem)

theorem VenueBook.uncrossed_of_orders {book : VenueBook}
    (h : ∀ p ∈ book.toList, ∀ q ∈ book.toList, p.2.place.side = .bid → q.2.place.side = .ask →
      p.2.place.symbol = q.2.place.symbol →
      p.2.place.price < q.2.place.price) : book.Uncrossed := by
  intro symbol bid ask hbid hask
  obtain ⟨p, hp, hpPlace⟩ := order_of_depth hbid
  obtain ⟨q, hq, hqPlace⟩ := order_of_depth hask
  have hlt := h p hp q hq (by rw [hpPlace]) (by rw [hqPlace]) (by rw [hpPlace, hqPlace])
  rwa [hpPlace, hqPlace] at hlt

/-! ## Handing over -/

namespace FeedHandler

/-- A handler that was given `stream`: what it published, in order. -/
structure Fed (publisher : FeedPublisher bucketCount ringSize) (stream : List Bytes)
    (updates : List OrderMessage) (handler : FeedHandler bucketCount ringSize) : Prop where
  decoder : handler.decoder = DeepPlusDecoder.run {} stream
  published : handler.publisher = (publisher.run (updates.map .publish)).1
  mirrors : Mirrors handler.publisher handler.decoder.levels
  takes : publisher.TakesAll updates

theorem Fed.handOver {stream : List Bytes} {bytes : Bytes}
    {handler : FeedHandler bucketCount ringSize}
    (F : Fed publisher stream updates handler) (h : GapFree ∅ (stream ++ [bytes]))
    (hbound : ∀ before, before <+: stream ++ [bytes] →
      ∀ place, (VenueBook.run ∅ before).depth place < 2 ^ 32)
    (huncrossed : ∀ before, before <+: stream ++ [bytes] → (VenueBook.run ∅ before).Uncrossed) :
    Fed publisher (stream ++ [bytes]) (updates ++ (handler.decoder.decode bytes).2)
      (handler.handOver bytes).1 := by
  have hfront : stream <+: stream ++ [bytes] := List.prefix_append ..
  have hall := List.prefix_refl (stream ++ [bytes])
  have hnext : (handler.decoder.decode bytes).1 = DeepPlusDecoder.run {} (stream ++ [bytes]) := by
    rw [DeepPlusDecoder.run_snoc, F.decoder]
  have D := decode_decoded handler.decoder bytes
  have hbefore : Bounded handler.decoder.levels := by
    rw [F.decoder]
    exact bounded_run (h.of_prefix hfront) (hbound _ hfront)
  have hafter : Bounded (handler.decoder.decode bytes).1.levels := by
    rw [hnext]
    exact bounded_run h (hbound _ hall)
  have htakes : handler.publisher.TakesAll (handler.decoder.decode bytes).2 := by
    refine Decoded.takesAll D F.mirrors hbefore hafter ?_ ?_
    · rw [F.decoder]
      exact uncrossed_run (h.of_prefix hfront) (huncrossed _ hfront)
    · rw [hnext]
      exact uncrossed_run h (huncrossed _ hall)
  refine ⟨hnext, ?_, mirrors_handOver F.mirrors hbefore hafter, takesAll_append.mpr ⟨F.takes, ?_⟩⟩
  · rw [run_publish_append, ← F.published]
    rfl
  · rwa [← F.published]

theorem fed_run {lossPercent : Nat} {lossRng : Stream' UInt64} {stream : List Bytes}
    (h : GapFree ∅ stream)
    (hbound : ∀ before, before <+: stream → ∀ place, (VenueBook.run ∅ before).depth place < 2 ^ 32)
    (huncrossed : ∀ before, before <+: stream → (VenueBook.run ∅ before).Uncrossed) :
    let handled :=
      (fresh (init lossPercent lossRng : FeedPublisher bucketCount ringSize)).handOverAll stream
    Fed (init lossPercent lossRng) stream (handled.2.assigned.map (·.msg)) handled.1 := by
  induction stream using List.reverseRecOn with
  | nil => exact ⟨rfl, rfl, mirrors_init, trivial⟩
  | append_singleton stream bytes ih =>
    have hfront : stream <+: stream ++ [bytes] := List.prefix_append ..
    have F := ih (h.of_prefix hfront) (fun before hb => hbound before (hb.trans hfront))
      fun before hb => huncrossed before (hb.trans hfront)
    have hnew := F.handOver h hbound huncrossed
    rw [handOverAll_append]
    generalize (fresh (init lossPercent lossRng : FeedPublisher bucketCount ringSize)).handOverAll
      stream =
      handled at hnew
    have hupdates : (handled.2 ++ (handled.1.handOverAll [bytes]).2).assigned.map (·.msg) =
        handled.2.assigned.map (·.msg) ++ (handled.1.decoder.decode bytes).2 := by
      have hone : (handled.1.handOverAll [bytes]).2.assigned =
          (handled.1.publisher.run ((handled.1.decoder.decode bytes).2.map .publish)).2.assigned :=
        List.append_nil _
      have hboth : (handled.2 ++ (handled.1.handOverAll [bytes]).2).assigned =
          handled.2.assigned ++ (handled.1.handOverAll [bytes]).2.assigned := rfl
      rw [hboth, List.map_append, hone, assigned_run]
    dsimp only
    rw [hupdates]
    exact hnew

/-- **No false alarm.** On a gap-free stream whose totals fit 32 bits and whose own book is
uncrossed after every message, every single update that is published is taken by the golden book of
its symbol as possible, and no bucket ever counts a crossed book. -/
theorem no_false_alarm {lossPercent : Nat} {lossRng : Stream' UInt64} {stream : List Bytes}
    (h : GapFree ∅ stream)
    (hbound : ∀ before, before <+: stream → ∀ place, (VenueBook.run ∅ before).depth place < 2 ^ 32)
    (huncrossed : ∀ before, before <+: stream → (VenueBook.run ∅ before).Uncrossed) :
    let publisher : FeedPublisher bucketCount ringSize := init lossPercent lossRng
    let handled := (fresh publisher).handOverAll stream
    (∀ earlier update later, handled.2.assigned.map (·.msg) = earlier ++ update :: later →
      (publisher.run (earlier.map .publish)).1.Takes update) ∧
    ∀ b (hb : b < bucketCount), handled.1.publisher.buckets[b].golden.crossed = 0 := by
  intro publisher handled
  have F := @fed_run bucketCount ringSize _ _ lossPercent lossRng stream h hbound huncrossed
  refine ⟨fun earlier update later hsplit => ?_, fun b hb => ?_⟩
  · have htakes := F.takes
    rw [hsplit] at htakes
    exact (takesAll_append.mp htakes).2.1
  · rw [F.published, crossed_run F.takes hb]
    simp [init]

/-- A bid that moves to a better price below the ask. -/
theorem no_false_alarm_moved :
    let handled := (fresh (init 0 (Stream'.const 0) : FeedPublisher 2 1)).handOverAll
      [addBytes 0x38 7 100 5000, addBytes 0x35 8 50 5100, modifyBytes 7 100 5050]
    handled.2.assigned.length = 4 ∧ ∀ b (hb : b < 2),
      handled.1.publisher.buckets[b].golden.crossed = 0 := by
  refine ⟨by decide, (@no_false_alarm 2 1 _ _ 0 (Stream'.const 0)
    [addBytes 0x38 7 100 5000, addBytes 0x35 8 50 5100, modifyBytes 7 100 5050] (by decide)
    (fun before hbefore place => ?_) fun before hbefore => ?_).2⟩
  · refine VenueBook.depth_le_sum.trans_lt ?_
    revert before
    simp only [← List.mem_inits]
    decide
  · refine VenueBook.uncrossed_of_orders ?_
    revert before
    simp only [← List.mem_inits]
    decide

end FeedHandler

end
end MegaFeed
