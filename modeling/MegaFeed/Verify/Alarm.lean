import MegaFeed.Verify.NoFalseAlarm
import MegaFeed.Verify.Pipeline

/-! # The alarm is exact

A golden book is possible after an update exactly if the levels it mirrors are uncrossed
(`Mirrors.takes_iff`). An update changes the levels of its own symbol only, and taking size off a
level crosses nothing, so that a message sets off the alarm of a bucket exactly if it leaves a
symbol of the bucket crossed (`Decoded.silent_iff`). On a gap-free stream that is exactly if the
venue's own book is crossed (`alarm_iff`). -/

namespace MegaFeed
open Std (ExtTreeMap)
open DeepPlusDecoder FeedPublisher

/-! ## Prefixes -/

theorem forall_prefix_concat {P : List α → Prop} {entries : List α} {a : α} :
    (∀ before, before <+: entries ++ [a] → P before) ↔
      (∀ before, before <+: entries → P before) ∧ P (entries ++ [a]) := by
  simp only [List.prefix_concat_iff, or_imp, forall_and, forall_eq]
  exact and_comm

/-! ## Levels -/

namespace DeepPlusDecoder

variable {bucketCount b : Nat} {levels levels' : Levels} {symbol : Bytes}

/-- Every bid level of the symbol lies below every ask level of it. -/
def UncrossedAt (levels : Levels) (symbol : Bytes) : Prop :=
  ∀ bid ask, levelSize levels ⟨symbol, .bid, bid⟩ ≠ none →
    levelSize levels ⟨symbol, .ask, ask⟩ ≠ none → bid < ask

/-- No symbol of the bucket is crossed. -/
def UncrossedIn (bucketCount b : Nat) (levels : Levels) : Prop :=
  ∀ symbol, bucketOf symbol bucketCount = b → UncrossedAt levels symbol

theorem UncrossedAt.of_sub (h : UncrossedAt levels symbol)
    (hsub : ∀ place, place.symbol = symbol → levelSize levels' place ≠ none →
      levelSize levels place ≠ none) :
    UncrossedAt levels' symbol :=
  fun bid ask hbid hask => h bid ask (hsub _ rfl hbid) (hsub _ rfl hask)

/-- Taking size off a level makes no new one. -/
theorem UncrossedIn.addLevel (h : UncrossedIn bucketCount b levels) (order : Order)
    (hdelta : delta ≤ 0) :
    UncrossedIn bucketCount b (addLevel levels order delta timestamp).1 := by
  refine fun symbol hsymbol => (h symbol hsymbol).of_sub fun place _ hsome => ?_
  rw [levelSize_addLevel] at hsome
  split at hsome
  · intro hnone
    rw [hnone, Option.getD_none, Int.zero_add, positive_of_nonpos hdelta] at hsome
    exact hsome rfl
  · exact hsome

theorem uncrossedIn_empty : UncrossedIn bucketCount b ∅ := by
  intro symbol _ bid ask hbid
  simp [levelSize] at hbid

end DeepPlusDecoder

/-- No symbol of the bucket is crossed at the venue. -/
def VenueBook.UncrossedIn (bucketCount b : Nat) (book : VenueBook) : Prop :=
  ∀ symbol, bucketOf symbol bucketCount = b → ∀ bid ask,
    book.depth ⟨symbol, .bid, bid⟩ ≠ 0 → book.depth ⟨symbol, .ask, ask⟩ ≠ 0 → bid < ask

theorem DeepPlusDecoder.uncrossedIn_run {bucketCount b : Nat} {stream : List Bytes}
    (h : GapFree ∅ stream) :
    UncrossedIn bucketCount b (run {} stream).levels ↔
      (VenueBook.run ∅ stream).UncrossedIn bucketCount b := by
  have hlevel (place : Place) : levelSize (run {} stream).levels place ≠ none ↔
      (VenueBook.run ∅ stream).depth place ≠ 0 := by
    have hdepth : 0 ≤ (VenueBook.run ∅ stream).depth place :=
      (mirrors_run h).1.depth_eq ▸ depth_nonneg
    rw [levelSize_run h place, positive, ite_ne_left_iff]
    simp only [ne_eq, reduceCtorEq, not_false_eq_true, and_true]
    omega
  simp only [UncrossedIn, UncrossedAt, VenueBook.UncrossedIn, hlevel]

/-! ## One update -/

theorem Book.mem_bids_iff {book : Book} {price : Int64} : price ∈ book.bids ↔
    book.level .bid price ≠ none :=
  ExtTreeMap.mem_iff_isSome_getElem?.trans Option.isSome_iff_ne_none

theorem Book.mem_asks_iff {book : Book} {price : Int64} : price ∈ book.asks ↔
    book.level .ask price ≠ none :=
  ExtTreeMap.mem_iff_isSome_getElem?.trans Option.isSome_iff_ne_none

section
variable {bucketCount ringSize b : Nat} [NeZero bucketCount] [NeZero ringSize]
  {publisher : FeedPublisher bucketCount ringSize} {before after : Levels} {msg : OrderMessage}
  {updates : List OrderMessage} {place : Place}

omit [NeZero ringSize] in
theorem Mirrors.uncrossed_iff (H : Mirrors publisher before) (symbol : Bytes) :
    (publisher.goldenBook symbol).uncrossed = true ↔ UncrossedAt before symbol := by
  have hlevel (side : Side) (price : Int64) :
      (publisher.goldenBook symbol).level side price ≠ none ↔
      levelSize before ⟨symbol, side, price⟩ ≠ none := by
    rw [← H.same, ne_eq, ne_eq, Option.map_eq_none_iff, FeedPublisher.goldenLevel, BookSet.level_eq]
    rfl
  rw [Book.uncrossed_iff]
  simp only [Book.mem_bids_iff, Book.mem_asks_iff, hlevel]
  exact ⟨fun h bid ask hbid hask => h bid hbid ask hask,
    fun h bid hbid ask hask => h bid ask hbid hask⟩

theorem goldenBook_publish (h : msg.type ≠ ascii 'E') :
    (publisher.publish msg).1.goldenBook (cString msg.symbol) =
      ((publisher.goldenBook (cString msg.symbol)).apply msg).1 := by
  rw [FeedPublisher.goldenBook, golden_publish, if_pos rfl, BookSet.apply, if_neg h]
  exact ExtTreeMap.getD_insert_self

theorem Mirrors.takes_iff (H : Mirrors publisher before) (h : Announces msg place before after)
    (hbound : Bounded after) : publisher.Takes msg ↔ UncrossedAt after (cString msg.symbol) := by
  have hend : msg.type ≠ ascii 'E' := by rw [h.type]; cases place.side <;> decide
  rw [← (H.update h hbound).uncrossed_iff, goldenBook_publish hend, FeedPublisher.Takes,
    Book.apply_possible h.type]

/-- The bucket is not of the message's symbol, or its golden book takes the message. -/
def FeedPublisher.Silent (publisher : FeedPublisher bucketCount ringSize) (b : Nat)
    (msg : OrderMessage) : Prop :=
  bucketOf (cString msg.symbol) bucketCount = b → publisher.Takes msg

/-- An update to uncrossed levels is silent exactly if it leaves them so: those of other
symbols stay. -/
theorem Mirrors.silent_iff (H : Mirrors publisher before) (h : Announces msg place before after)
    (hbound : Bounded after) (huncrossed : UncrossedIn bucketCount b before) :
    publisher.Silent b msg ↔ UncrossedIn bucketCount b after := by
  rw [FeedPublisher.Silent, H.takes_iff h hbound]
  refine ⟨fun hown symbol hsymbol => ?_, fun hall hb => hall _ hb⟩
  by_cases hsame : cString msg.symbol = symbol
  · subst hsame
    exact hown hsymbol
  · refine (huncrossed symbol hsymbol).of_sub fun place' hplace => ?_
    have hother : place ≠ place' := fun heq => hsame (h.symbol.trans (heq ▸ hplace))
    rw [h.other place' hother]
    exact id

/-- None of a list of updates sets off the alarm of the bucket. -/
def FeedPublisher.SilentAll (publisher : FeedPublisher bucketCount ringSize) (b : Nat) :
    List OrderMessage → Prop
  | [] => True
  | msg :: updates => publisher.Silent b msg ∧ SilentAll (publisher.publish msg).1 b updates

/-- From uncrossed levels a message is silent exactly if it leaves them uncrossed. -/
theorem Decoded.silent_iff {d d' : DeepPlusDecoder} (D : Decoded d event d' updates)
    (H : Mirrors publisher d.levels) (hbound : Bounded d.levels) (hbound' : Bounded d'.levels)
    (huncrossed : UncrossedIn bucketCount b d.levels) :
    publisher.SilentAll b updates ↔ UncrossedIn bucketCount b d'.levels := by
  cases D with
  | unknown | ignore => exact iff_of_true trivial huncrossed
  | trade htrade => exact iff_of_true ⟨fun _ => takes_trade htrade, trivial⟩ huncrossed
  | add | remove | resize =>
    exact (and_iff_left trivial).trans (H.silent_iff addLevel_announces hbound' huncrossed)
  | @move left joined id order price size timestamp hsome hne hleft hjoined =>
    -- the first of the two updates only takes the order off its level
    subst hleft hjoined
    have hleave : -(order.size.toNat : Int) ≤ 0 := by omega
    have hboundLeft : Bounded (addLevel d.levels order (-order.size.toNat) timestamp).1 :=
      hbound.addLevel order hleave
    have huncrossedLeft :
        UncrossedIn bucketCount b (addLevel d.levels order (-order.size.toNat) timestamp).1 :=
      huncrossed.addLevel order hleave
    have hfirst := (H.silent_iff addLevel_announces hboundLeft huncrossed).mpr huncrossedLeft
    refine (and_iff_right hfirst).trans ((and_iff_left trivial).trans ?_)
    exact (H.update addLevel_announces hboundLeft).silent_iff addLevel_announces hbound'
      huncrossedLeft
  | execute executed timestamp hsome htrade =>
    refine Iff.trans (and_iff_left ⟨fun _ => takes_trade htrade, trivial⟩) ?_
    exact H.silent_iff addLevel_announces hbound' huncrossed

/-! ## The counter -/

omit [NeZero ringSize] in
theorem takes_end (h : msg.type = ascii 'E') : publisher.Takes msg := by
  have hbid : msg.type ≠ ascii 'B' := by rw [h]; decide
  have hask : msg.type ≠ ascii 'S' := by rw [h]; decide
  rw [FeedPublisher.Takes, Book.apply, if_neg hbid, if_neg hask]

theorem crossed_publish_iff (hb : b < bucketCount) :
    (publisher.publish msg).1.buckets[b].golden.crossed = 0 ↔
      publisher.buckets[b].golden.crossed = 0 ∧ publisher.Silent b msg := by
  by_cases hsilent : publisher.Silent b msg
  · rw [and_iff_left hsilent]
    by_cases hown : bucketOf (cString msg.symbol) bucketCount = b
    · rw [crossed_publish (hsilent hown) hb]
    · rw [golden_publish, if_neg hown]
  · obtain ⟨hown, hcrossed⟩ := Classical.not_imp.mp hsilent
    have hend : msg.type ≠ ascii 'E' := fun h => hcrossed (takes_end h)
    refine iff_of_false ?_ fun h => hsilent h.2
    rw [golden_publish, if_pos hown, BookSet.apply, if_neg hend]
    subst hown
    rw [FeedPublisher.Takes, FeedPublisher.goldenBook, Bool.not_eq_true] at hcrossed
    simp only [hcrossed]
    exact Nat.succ_ne_zero _

theorem crossed_run_iff (hb : b < bucketCount) :
    (publisher.run (updates.map .publish)).1.buckets[b].golden.crossed = 0 ↔
      publisher.buckets[b].golden.crossed = 0 ∧ publisher.SilentAll b updates := by
  induction updates generalizing publisher with
  | nil => exact (and_iff_left trivial).symm
  | cons msg updates ih =>
    rw [FeedPublisher.SilentAll, ← and_assoc, ← crossed_publish_iff hb]
    exact ih

/-! ## Whole streams -/

namespace FeedHandler

theorem alarm_levels (lossPercent : Nat) (lossRng : Stream' UInt64) {stream : List Bytes}
    (hbound : ∀ before, before <+: stream → Bounded (DeepPlusDecoder.run {} before).levels)
    (hb : b < bucketCount) :
    ((fresh (init lossPercent lossRng : FeedPublisher bucketCount ringSize)).handOverAll
        stream).1.publisher.buckets[b].golden.crossed = 0 ↔
      ∀ before, before <+: stream →
        UncrossedIn bucketCount b (DeepPlusDecoder.run {} before).levels := by
  let handed (messages : List Bytes) :=
    ((fresh (init lossPercent lossRng : FeedPublisher bucketCount ringSize)).handOverAll messages).1
  have hdecoder (messages : List Bytes) :
      (handed messages).decoder = DeepPlusDecoder.run {} messages :=
    (handOverAll_eq (fresh (init lossPercent lossRng)) messages).1
  suffices ∀ messages, messages <+: stream →
    Mirrors (handed messages).publisher (handed messages).decoder.levels ∧
      ((handed messages).publisher.buckets[b].golden.crossed = 0 ↔
        ∀ before, before <+: messages →
        UncrossedIn bucketCount b (DeepPlusDecoder.run {} before).levels) from
    (this stream List.prefix_rfl).2
  intro messages hmessages
  induction messages using List.reverseRecOn with
  | nil =>
    refine ⟨mirrors_init, iff_of_true (by simp [handed, handOverAll, fresh, init])
      fun before hbefore => ?_⟩
    rw [List.prefix_nil.mp hbefore]
    exact uncrossedIn_empty
  | append_singleton messages bytes ih =>
    have hfront := (List.prefix_append _ _).trans hmessages
    obtain ⟨H, hcrossed⟩ := ih hfront
    have hstep : handed (messages ++ [bytes]) = ((handed messages).handOver bytes).1 := by
      simp only [handed, handOverAll_append, handOverAll]
    have h : Bounded (handed messages).decoder.levels := hdecoder messages ▸ hbound _ hfront
    have h' : Bounded ((handed messages).handOver bytes).1.decoder.levels := by
      rw [← hstep, hdecoder]
      exact hbound _ hmessages
    refine ⟨hstep ▸ mirrors_handOver H h h', ?_⟩
    rw [forall_prefix_concat, ← hcrossed, ← hdecoder (messages ++ [bytes]), hstep]
    refine (crossed_run_iff hb).trans (and_congr_right fun hzero => ?_)
    have huncrossed : UncrossedIn bucketCount b (handed messages).decoder.levels := by
      rw [hdecoder]
      exact hcrossed.mp hzero messages List.prefix_rfl
    exact Decoded.silent_iff (decode_decoded (handed messages).decoder bytes) H h h' huncrossed

/-- **The alarm is exact.** Whatever messages are decoded, complete or with gaps, as long as every
total fits 32 bits: the counter of a bucket is zero exactly if the decoder's levels have never been
crossed for a symbol of that bucket. If the stream is gap-free, that is exactly if the venue's own
book has never been. -/
theorem alarm_iff {lossPercent : Nat} {lossRng : Stream' UInt64} {stream : List Bytes}
    (hbound : ∀ before, before <+: stream → Bounded (DeepPlusDecoder.run {} before).levels)
    (b : Nat)
    (hb : b < bucketCount) :
    let handled :=
      (fresh (init lossPercent lossRng : FeedPublisher bucketCount ringSize)).handOverAll stream
    (handled.1.publisher.buckets[b].golden.crossed = 0 ↔
      ∀ before, before <+: stream →
      UncrossedIn bucketCount b (DeepPlusDecoder.run {} before).levels) ∧
    (GapFree ∅ stream → (handled.1.publisher.buckets[b].golden.crossed = 0 ↔
      ∀ before, before <+: stream → (VenueBook.run ∅ before).UncrossedIn bucketCount b)) := by
  intro handled
  have hexact := @alarm_levels bucketCount ringSize b _ _ lossPercent lossRng stream hbound hb
  refine ⟨hexact, fun hgapfree => hexact.trans (forall₂_congr fun before hbefore => ?_)⟩
  exact uncrossedIn_run (hgapfree.of_prefix hbefore)

/-- An ask below the bid at the venue sets the alarm off. -/
theorem alarm_iff_crossed :
    let stream := [addBytes 0x38 7 100 5000, addBytes 0x35 8 50 4900]
    let handled := (fresh (init 0 (Stream'.const 0) : FeedPublisher 1 1)).handOverAll stream
    GapFree ∅ stream ∧ ∀ b (hb : b < 1), handled.1.publisher.buckets[b].golden.crossed ≠ 0 := by
  intro stream handled
  have hgapfree : GapFree ∅ stream := by decide
  have hbound (before : List Bytes) (hbefore : before <+: stream) :
      Bounded (DeepPlusDecoder.run {} before).levels := by
    refine bounded_run (hgapfree.of_prefix hbefore) fun place => VenueBook.depth_le_sum.trans_lt ?_
    revert before
    simp only [stream, ← List.mem_inits]
    decide
  refine ⟨hgapfree, fun b hb hzero => ?_⟩
  have hall := ((@alarm_iff 1 1 _ _ 0 (Stream'.const 0) stream hbound b hb).2 hgapfree).mp hzero
  have hbucket : bucketOf [0x5a] 1 = b := (by decide : bucketOf [0x5a] 1 = 0).trans (by omega)
  exact absurd (hall stream List.prefix_rfl [0x5a] hbucket 5000 4900 (by decide) (by decide))
    (by decide)

end FeedHandler
end
end MegaFeed
