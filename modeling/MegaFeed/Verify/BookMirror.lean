import MegaFeed.Verify.Decoder
import MegaFeed.Verify.FeedHandler

/-! # The golden books mirror the decoder's levels

An update announces one level of the decoder (`Announces`), and publishing it sets that level of the
golden book of its symbol (`goldenLevel_publish`). So whatever bytes are decoded, the golden books
and `levels` hold the same levels with the same sizes (`books_mirror_levels`), as long as every
total fits the 32 bits of a size. -/

namespace MegaFeed
open Std (ExtTreeMap)
open DeepPlusDecoder FeedPublisher

/-! ## One book -/

/-- The level of a book at one side and price. -/
def Book.level (book : Book) : Side → Int64 → Option UInt32
  | .bid, price => book.bids[price]?
  | .ask, price => book.asks[price]?

/-- The type byte of an update of a side. -/
def Side.letter : Side → UInt8
  | .bid => ascii 'B'
  | .ask => ascii 'S'

/-- What a book holds at a level whose size is announced: nothing if it is zero. -/
def nonzero (size : UInt32) : Option UInt32 := if size = 0 then none else some size

theorem Book.getElem?_setLevel {cmp : Int64 → Int64 → Ordering} [Std.TransCmp cmp]
    [Std.LawfulEqCmp cmp] {side : ExtTreeMap Int64 UInt32 cmp} {msg : OrderMessage} :
    (Book.setLevel side msg)[price]? = if msg.price = price then nonzero msg.size
      else side[price]? := by
  rw [Book.setLevel, nonzero]
  split
  · rw [ExtTreeMap.getElem?_erase']
  · rw [ExtTreeMap.getElem?_insert']

theorem Book.level_apply {book : Book} {msg : OrderMessage} {side : Side}
    (h : msg.type = side.letter) :
    (book.apply msg).1.level side' price =
      if side = side' ∧ msg.price = price then nonzero msg.size else book.level side' price := by
  cases side with
  | bid =>
    rw [Side.letter] at h
    rw [Book.apply, if_pos h]
    cases side' with
    | bid => simp only [Book.level, getElem?_setLevel, true_and]
    | ask => simp [Book.level]
  | ask =>
    rw [Side.letter] at h
    have hne : msg.type ≠ ascii 'B' := by rw [h]; decide
    rw [Book.apply, if_neg hne, if_pos h]
    cases side' with
    | bid => simp [Book.level]
    | ask => simp only [Book.level, getElem?_setLevel, true_and]

/-- Other messages leave every book alone. -/
theorem Book.apply_trade {book : Book} {msg : OrderMessage} (h : msg.type = ascii 'T') :
    book.apply msg = (book, true) := by
  have hbid : msg.type ≠ ascii 'B' := by rw [h]; decide
  have hask : msg.type ≠ ascii 'S' := by rw [h]; decide
  rw [Book.apply, if_neg hbid, if_neg hask]

/-! ## The books of a bucket -/

namespace BookSet

/-- The level of a symbol's book. -/
def level (set : BookSet) (place : Place) : Option UInt32 :=
  set.books[place.symbol]?.bind fun book => book.level place.side place.price

theorem level_eq {set : BookSet} {place : Place} :
    set.level place = (set.books.getD place.symbol {}).level place.side place.price := by
  rw [level, ExtTreeMap.getD_eq_getD_getElem?]
  cases set.books[place.symbol]? with
  | none => cases place.side <;> simp [Book.level]
  | some book => rfl

theorem level_apply_other {set : BookSet} {msg : OrderMessage} {place : Place}
    (h : cString msg.symbol ≠ place.symbol) : (set.apply msg).level place = set.level place := by
  rw [apply]
  split
  · rfl
  · simp only [level, ExtTreeMap.getElem?_insert', if_neg h]

theorem level_apply_same {set : BookSet} {msg : OrderMessage} {place : Place}
    (hend : msg.type ≠ ascii 'E') (h : cString msg.symbol = place.symbol) :
    (set.apply msg).level place =
      ((set.books.getD place.symbol {}).apply msg).1.level place.side place.price := by
  rw [apply, if_neg hend]
  simp only [level, h, ExtTreeMap.getElem?_insert_self, Option.bind_some]

/-- An update of one level sets that level and no other. -/
theorem level_apply {set : BookSet} {msg : OrderMessage} {place place' : Place}
    (htype : msg.type = place.side.letter) (hsymbol : cString msg.symbol = place.symbol)
    (hprice : msg.price = place.price) :
    (set.apply msg).level place' = if place = place' then nonzero msg.size
      else set.level place' := by
  have hend : msg.type ≠ ascii 'E' := by rw [htype]; cases place.side <;> decide
  obtain ⟨symbol, side, price⟩ := place
  obtain ⟨symbol', side', price'⟩ := place'
  dsimp only at *
  by_cases hsame : symbol = symbol'
  · rw [level_apply_same hend (hsymbol.trans hsame), Book.level_apply htype, level_eq]
    simp only [hprice, Place.mk.injEq, hsame, true_and]
  · rw [level_apply_other (hsymbol ▸ hsame), if_neg fun h => hsame (congrArg Place.symbol h)]

theorem level_apply_trade {set : BookSet} {msg : OrderMessage} (h : msg.type = ascii 'T')
    (place : Place) : (set.apply msg).level place = set.level place := by
  by_cases hsame : cString msg.symbol = place.symbol
  · have hend : msg.type ≠ ascii 'E' := by rw [h]; decide
    rw [level_apply_same hend hsame, Book.apply_trade h, level_eq]
  · exact level_apply_other hsame

end BookSet

/-! ## Updates -/

/-- `msg` announces the one level in which `levels'` differs from `levels`. -/
structure Announces (msg : OrderMessage) (place : Place) (levels levels' : Levels) : Prop where
  type : msg.type = place.side.letter
  symbol : cString msg.symbol = place.symbol
  price : msg.price = place.price
  size : msg.size = UInt32.ofInt ((levelSize levels' place).getD 0)
  other : ∀ place', place ≠ place' → levelSize levels' place' = levelSize levels place'
  pos : ∀ total, levelSize levels' place = some total → 0 < total

theorem addLevel_announces {levels : Levels} {order : DeepPlusDecoder.Order} :
    Announces (addLevel levels order delta timestamp).2 order.place levels
      (addLevel levels order delta timestamp).1 where
  type := by cases h : order.side <;> simp [addLevel, Order.place, Side.letter, h]
  symbol := rfl
  price := rfl
  size := by
    have htotal : ((levels.getD (cString order.symbol) {}).side order.side).getD order.price 0 =
        (levelSize levels order.place).getD 0 := by
      rw [ExtTreeMap.getD_eq_getD_getElem?, getElem?_side_getD, Order.place]
    rw [levelSize_addLevel, if_pos rfl, positive]
    simp only [addLevel, htotal]
    split <;> rfl
  other place' h := by rw [levelSize_addLevel, if_neg h]
  pos total h := by
    rw [levelSize_addLevel, if_pos rfl, positive] at h
    split at h
    · cases h
    · cases h; omega

/-- Every level total fits the 32 bits of a size. -/
def Bounded (levels : Levels) : Prop :=
  ∀ place total, levelSize levels place = some total → total < 2 ^ 32

theorem bounded_of_toList {levels : Levels}
    (h : ∀ entry ∈ levels.toList, ∀ side ∈ [Side.bid, .ask], ∀ size ∈ (entry.2.side side).toList,
      size.2 < 2 ^ 32) :
    Bounded levels := by
  intro place total hsome
  obtain ⟨level, hlevel, hsize⟩ := Option.bind_eq_some_iff.mp hsome
  exact h (place.symbol, level) (ExtTreeMap.mem_toList_iff_getElem?_eq_some.mpr hlevel) place.side
    (by cases place.side <;> decide) (place.price, total)
      (ExtTreeMap.mem_toList_iff_getElem?_eq_some.mpr hsize)

/-- Updates and trades that lead from one state of the levels to another, no total on the way
reaching 2^32. -/
inductive LevelRun : Levels → Levels → List OrderMessage → Prop
  | nil {before : Levels} : LevelRun before before []
  | update {before next after : Levels} (h : Announces msg place before next)
    (hbound : Bounded next)
    (hrun : LevelRun next after out) : LevelRun before after (msg :: out)
  | trade {before after : Levels} (h : msg.type = ascii 'T') (hrun : LevelRun before after out) :
    LevelRun before after (msg :: out)

/-- Taking size off a level keeps the bound. -/
theorem Bounded.addLevel {levels : Levels} (h : Bounded levels) (order : DeepPlusDecoder.Order)
    (hdelta : delta ≤ 0) : Bounded (addLevel levels order delta timestamp).1 := by
  intro place total hsome
  rw [levelSize_addLevel] at hsome
  split at hsome
  · rw [positive] at hsome
    split at hsome
    · cases hsome
    · cases hsome
      cases hold : levelSize levels place with
      | none => simp only [Option.getD_none]; omega
      | some old => have := h place old hold; simp only [Option.getD_some]; omega
  · exact h place total hsome

theorem DeepPlusDecoder.Decoded.levelRun {d d' : DeepPlusDecoder} (D : Decoded d event d' out)
    (h : Bounded d.levels) (h' : Bounded d'.levels) : LevelRun d.levels d'.levels out := by
  cases D with
  | unknown | ignore => exact .nil
  | trade htrade => exact .trade htrade .nil
  | add | remove | resize => exact .update addLevel_announces h' .nil
  | @move left joined id order price size timestamp hsome hne hleft hjoined =>
    subst hleft hjoined
    have hleave : -(order.size.toNat : Int) ≤ 0 := by omega
    exact .update addLevel_announces (h.addLevel order hleave) (.update addLevel_announces h' .nil)
  | execute executed timestamp hsome htrade =>
    exact .update addLevel_announces h' (.trade htrade .nil)

/-! ## The publisher -/

section
variable {bucketCount ringSize : Nat} [NeZero bucketCount] [NeZero ringSize]
  {publisher : FeedPublisher bucketCount ringSize} {before after : Levels} {msg : OrderMessage}

/-- The level of the golden book of a symbol, in the bucket of that symbol. -/
def FeedPublisher.goldenLevel (publisher : FeedPublisher bucketCount ringSize) (place : Place) :
    Option UInt32 :=
  have hindex : bucketOf place.symbol bucketCount < bucketCount := bucketOf_lt
  publisher.buckets[bucketOf place.symbol bucketCount].golden.level place

theorem golden_publish {b : Nat} (hb : b < bucketCount) :
    (publisher.publish msg).1.buckets[b].golden =
      if bucketOf (cString msg.symbol) bucketCount = b then publisher.buckets[b].golden.apply msg
      else publisher.buckets[b].golden := by
  simp only [publish, Vector.getElem_set]
  split
  · next heq => subst heq; split <;> rfl
  · rfl

/-- The golden books hold exactly the levels of the decoder, each in the bucket of its symbol, and
no level is empty. -/
structure Mirrors (publisher : FeedPublisher bucketCount ringSize) (levels : Levels) : Prop where
  same : ∀ place, (publisher.goldenLevel place).map (fun size => (size.toNat : Int)) =
    levelSize levels place
  golden_pos : ∀ b (h : b < bucketCount) place, publisher.buckets[b].golden.level place ≠ some 0
  pos : ∀ place total, levelSize levels place = some total → 0 < total

theorem map_nonzero {total : Option Int} (hpos : ∀ n, total = some n → 0 < n ∧ n < 2 ^ 32) :
    (nonzero (UInt32.ofInt (total.getD 0))).map (fun size => (size.toNat : Int)) = total := by
  cases total with
  | none => rfl
  | some n =>
    obtain ⟨hlow, hhigh⟩ := hpos n rfl
    obtain ⟨k, rfl⟩ := Int.eq_ofNat_of_zero_le hlow.le
    have hword : (UInt32.ofInt k).toNat = k := by
      rw [UInt32.ofInt, UInt32.toNat_ofNat']
      omega
    have hne : UInt32.ofInt k ≠ 0 := fun hzero => by
      rw [hzero] at hword
      simp only [UInt32.toNat_zero] at hword
      omega
    rw [Option.getD_some, nonzero, if_neg hne, Option.map_some, hword]

theorem nonzero_ne_zero {size : UInt32} : nonzero size ≠ some 0 := by
  rw [nonzero]
  split
  · nofun
  · next h => exact fun heq => h (Option.some.inj heq)

theorem Mirrors.update (H : Mirrors publisher before) (h : Announces msg place before after)
    (hbound : Bounded after) : Mirrors (publisher.publish msg).1 after where
  same place' := by
    rw [FeedPublisher.goldenLevel, golden_publish]
    by_cases hsame : place = place'
    · subst hsame
      have hpos : ∀ n, levelSize after place = some n → 0 < n ∧ n < 2 ^ 32 :=
        fun n hn => ⟨h.pos n hn, hbound place n hn⟩
      rw [if_pos (by rw [h.symbol]), BookSet.level_apply h.type h.symbol h.price,
        if_pos rfl, h.size, map_nonzero hpos]
    · rw [h.other _ hsame, ← H.same]
      split
      · rw [BookSet.level_apply h.type h.symbol h.price, if_neg hsame]; rfl
      · rfl
  golden_pos b hb place' := by
    rw [golden_publish hb]
    split
    · rw [BookSet.level_apply h.type h.symbol h.price]
      split
      · exact nonzero_ne_zero
      · exact H.golden_pos b hb place'
    · exact H.golden_pos b hb place'
  pos place' total hsome := by
    by_cases hsame : place = place'
    · exact h.pos total (hsame ▸ hsome)
    · exact H.pos place' total (h.other place' hsame ▸ hsome)

theorem Mirrors.trade (H : Mirrors publisher before) (h : msg.type = ascii 'T') :
    Mirrors (publisher.publish msg).1 before where
  same place := by
    rw [← H.same, FeedPublisher.goldenLevel, golden_publish]
    split
    · rw [BookSet.level_apply_trade h]; rfl
    · rfl
  golden_pos b hb place := by
    rw [golden_publish hb]
    split
    · rw [BookSet.level_apply_trade h]; exact H.golden_pos b hb place
    · exact H.golden_pos b hb place
  pos := H.pos

omit [NeZero ringSize] in
/-- The publisher's golden books before anything was published. -/
theorem mirrors_init {lossPercent : Nat} {lossRng : Stream' UInt64} :
    Mirrors (init lossPercent lossRng : FeedPublisher bucketCount ringSize) ∅ where
  same place := by simp [goldenLevel, init, BookSet.level, levelSize]
  golden_pos b hb place := by simp [init, BookSet.level]
  pos place total hsome := by simp [levelSize] at hsome

theorem Mirrors.run (H : Mirrors publisher before) (hrun : LevelRun before after out) :
    Mirrors (publisher.run (out.map .publish)).1 after := by
  induction hrun generalizing publisher with
  | nil => exact H
  | update h hbound _ ih => exact ih (H.update h hbound)
  | trade h _ ih => exact ih (H.trade h)

namespace FeedHandler

theorem mirrors_handOver {handler : FeedHandler bucketCount ringSize} {bytes : Bytes}
    (H : Mirrors handler.publisher handler.decoder.levels) (h : Bounded handler.decoder.levels)
    (h' : Bounded (handler.handOver bytes).1.decoder.levels) :
    Mirrors (handler.handOver bytes).1.publisher (handler.handOver bytes).1.decoder.levels :=
  H.run ((decode_decoded handler.decoder bytes).levelRun h h')

/-- **Decoder and published books never drift apart.** While every level total fits 32 bits, after
every message the golden books hold exactly the levels of the decoder, with their sizes, and neither
holds an empty level. -/
theorem books_mirror_levels {lossPercent : Nat} {lossRng : Stream' UInt64} {messages : List Bytes}
    (h : ∀ before, before <+: messages →
      Bounded ((fresh (init lossPercent lossRng : FeedPublisher bucketCount ringSize)).handOverAll
        before).1.decoder.levels) :
    ∀ before, before <+: messages →
      let handler :=
        ((fresh (init lossPercent lossRng : FeedPublisher bucketCount ringSize)).handOverAll
        before).1
      Mirrors handler.publisher handler.decoder.levels := by
  intro before hb
  induction before using List.reverseRecOn with
  | nil => exact mirrors_init
  | append_singleton before bytes ih =>
    have hbefore := (List.prefix_append _ _).trans hb
    have hbound := h _ hb
    simp only [handOverAll_append, handOverAll] at hbound ⊢
    exact mirrors_handOver (ih hbefore) (h _ hbefore) hbound

/-- A bid that moves, an ask that is executed as a whole, and a change of an order that is
not known. -/
theorem books_mirror_levels_moved :
    let messages := [addBytes 0x38 7 100 5000, addBytes 0x35 8 50 5100, modifyBytes 7 60 4950,
      executeBytes 8 50 5100, modifyBytes 9 10 5200]
    let handler := ((fresh (init 0 (Stream'.const 0) : FeedPublisher 2 1)).handOverAll messages).1
    let golden side price := (handler.publisher.goldenLevel ⟨[0x5a], side, price⟩).map fun size =>
      (size.toNat : Int)
    golden .bid 5000 = none ∧ golden .bid 4950 = some 60 ∧ golden .ask 5100 = none ∧
      golden .bid 5200 = none ∧
      handler.decoder.unknownReferences = 1 := by
  intro messages handler golden
  have hbounded : ∀ before, before <+: messages →
      Bounded ((fresh (init 0 (Stream'.const 0) : FeedPublisher 2 1)).handOverAll
        before).1.decoder.levels := by
    intro before hbefore
    refine bounded_of_toList ?_
    revert before
    simp only [← List.mem_inits]
    decide
  have hmirrors := books_mirror_levels hbounded messages List.prefix_rfl
  have hgolden side price :
      golden side price = levelSize handler.decoder.levels ⟨[0x5a], side, price⟩ :=
    hmirrors.same _
  simp only [hgolden]
  decide

end FeedHandler
end
end MegaFeed
