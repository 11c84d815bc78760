import MegaFeed.Verify.Conservation
import MegaFeed.Verify.Acts
import MegaFeed.Verify.Ladder
import MegaFeed.Verify.Pipeline
import MegaFeed.Verify.Reassembly

/-! # What the visualizer shows

Whatever the network does to it, `run` returns true exactly if the end has been reached
(`Driven.loop_spec`), and the counters of a bucket say what was handed over (`Reported`). For `main`
this is `main_shows`: each ladder is that of the messages handed over so far, no two are drawn
within 100 ms, and the last one shows all of them. -/

namespace MegaFeed
namespace Subscriber

variable {settings : Settings} {history events : List BucketEvent} {bucket bucket' : Bucket}
  {subscriber : Subscriber} {log : List Event}

/-! ## Counters -/

/-- The counters and the flag of a bucket say what its history says. -/
structure Reported (history : List BucketEvent) (bucket : Bucket) : Prop where
  delivered : bucket.stats.delivered = (delivered history).length
  unrecoverable : bucket.stats.unrecoverable = tally .unrecoverable history
  ended : tally .ended history = bucket.done.toNat

theorem Reported.append (R : Reported history bucket) (h : outcomes events = [])
    (hdelivered : bucket'.stats.delivered = bucket.stats.delivered)
    (hunrecoverable : bucket'.stats.unrecoverable = bucket.stats.unrecoverable)
    (hdone : bucket'.done = bucket.done) : Reported (history ++ events) bucket' := by
  have hsame : outcomes (history ++ events) = outcomes history := by
    rw [outcomes_append, h, List.append_nil]
  refine ⟨?_, ?_, ?_⟩
  · rw [hdelivered, R.delivered, delivered_eq, delivered_eq, hsame]
  · rw [hunrecoverable, R.unrecoverable, tally, tally, hsame]
  · rw [hdone, ← R.ended, tally, tally, hsame]

theorem Reported.round {event : BucketEvent} (R : Reported history bucket)
    (h : bucket.Round event bucket') :
    Reported (history ++ [event]) bucket' := by
  cases h with
  | delivered =>
    refine ⟨?_, ?_, ?_⟩
    · rw [delivered_append, List.length_append, ← R.delivered]
      rfl
    · rw [tally_append, ← R.unrecoverable]
      rfl
    · rw [tally_append, R.ended]
      rfl
  | ended hopen =>
    refine ⟨?_, ?_, ?_⟩
    · rw [delivered_append, List.length_append, ← R.delivered]
      rfl
    · rw [tally_append, ← R.unrecoverable]
      rfl
    · rw [tally_append, R.ended, hopen]
      rfl
  | unrecoverable =>
    refine ⟨?_, ?_, ?_⟩
    · rw [delivered_append, List.length_append, ← R.delivered]
      rfl
    · rw [tally_append, ← R.unrecoverable]
      rfl
    · rw [tally_append, R.ended]
      rfl

theorem Reported.rounds (R : Reported history bucket) (h : bucket.Rounds events bucket') :
    Reported (history ++ events) bucket' := by
  induction h generalizing history with
  | nil => rwa [List.append_nil]
  | cons hround _ ih =>
    have hlast := ih (R.round hround)
    rwa [List.append_assoc] at hlast

theorem Reported.act (R : Reported history bucket) (act : Act) :
    Reported (history ++ (bucket.act settings act).2) (bucket.act settings act).1 := by
  cases act with
  | accept sequence msg now =>
    rw [Bucket.act]
    refine R.append ?_ ?_ ?_ ?_ <;> unfold Bucket.acceptOrderMessage <;> dsimp only <;>
      split <;> split <;> first | rfl | exact quiet_noticed.2.1
  | frame sequence payload =>
    rw [Bucket.act]
    refine R.append rfl ?_ ?_ ?_ <;> unfold Bucket.onFrame <;> dsimp only <;> split
      <;> split <;> rfl
  | expire now => exact R.append quiet_expired.2.1 rfl rfl rfl
  | request now =>
    rw [Bucket.act]
    split
    · exact R.append rfl rfl rfl rfl
    · exact R.append rfl rfl rfl rfl
  | deliver => exact R.rounds (Bucket.deliverLoop_rounds _ _)

theorem Reported.acts (R : Reported history bucket) (acts : List Act) :
    Reported (history ++ (bucket.acts settings acts).2) (bucket.acts settings acts).1 := by
  induction acts generalizing history bucket with
  | nil =>
    rw [Bucket.acts, List.append_nil]
    exact R
  | cons act acts ih =>
    have hact : Reported _ (bucket.act settings act).1 := R.act act
    have hlast := ih hact
    rwa [List.append_assoc] at hlast

/-- Whatever the subscriber meets. -/
theorem run_reported {calls : List Call} (hnodup : (subscriber.buckets.map (·.id)).Nodup)
    (h : ∀ bucket ∈ subscriber.buckets, Reported (Subscriber.history bucket.id log) bucket) :
    ∀ bucket ∈ (subscriber.run calls).1.buckets,
      Reported (Subscriber.history bucket.id (log ++ (subscriber.run calls).2)) bucket := by
  induction calls generalizing subscriber log with
  | nil =>
    rw [run, List.append_nil]
    exact h
  | cons call calls ih =>
    have A := call_acted subscriber call
    rw [run_cons, ← List.append_assoc]
    refine ih (by rw [A.ids]; exact hnodup) fun bucket' hmem => ?_
    obtain ⟨bucket, hbucket, acts, -, rfl, hhistory⟩ := A.exists_acts hmem
    rw [bucket.id_acts, history_append, hhistory hnodup]
    exact (h bucket hbucket).acts acts

/-! ## `run` -/

theorem ids_run {calls : List Call} :
    (subscriber.run calls).1.buckets.map (·.id) = subscriber.buckets.map (·.id) := by
  induction calls generalizing subscriber with
  | nil => rfl
  | cons call calls ih =>
    rw [run_cons, ih]
    exact (call_acted subscriber call).ids

/-- No other bucket has a history. -/
theorem run_known {calls : List Call} {id : Nat} (h : id ∉ subscriber.buckets.map (·.id)) :
    Subscriber.history id (subscriber.run calls).2 = [] := by
  induction calls generalizing subscriber with
  | nil => rfl
  | cons call calls ih =>
    have A := call_acted subscriber call
    rw [run_cons, history_append, A.known id h, List.nil_append]
    exact ih (by rwa [A.ids])

namespace Driven

/-- The loop makes calls, and returns true exactly if the last `pump` reached the end. -/
theorem loop_spec {started : UInt64} {rounds : List Round} {driven : Driven}
    (h : driven.subscriber.isDone = false) :
    ∃ calls, (loop started driven rounds).1.subscriber = (driven.subscriber.run calls).1 ∧
      (loop started driven rounds).1.events = driven.events ++ (driven.subscriber.run calls).2 ∧
      ∀ ended ∈ (loop started driven rounds).2,
        ended = (loop started driven rounds).1.subscriber.isDone := by
  induction rounds generalizing driven with
  | nil => exact ⟨[], rfl, (List.append_nil _).symm, fun ended hmem => by cases hmem⟩
  | cons round rounds ih =>
    rw [loop]
    split
    · refine ⟨[], rfl, (List.append_nil _).symm, fun ended hmem => ?_⟩
      cases hmem
      exact h.symm
    · -- the rest of the loop starts from what `pump` leaves, whether or not it warns first
      have hrest (next : Driven) (hsubscriber : next.subscriber =
          (driven.subscriber.pump round.input).1)
          (hevents : next.events = driven.events ++ (driven.subscriber.pump round.input).2)
          (hopen : next.subscriber.isDone = false) :
          ∃ calls, (loop started next rounds).1.subscriber = (driven.subscriber.run calls).1 ∧
            (loop started next rounds).1.events = driven.events ++ (driven.subscriber.run calls).2 ∧
            ∀ ended ∈ (loop started next rounds).2,
              ended = (loop started next rounds).1.subscriber.isDone := by
        obtain ⟨calls, hlast, hlog, hended⟩ := ih hopen
        refine ⟨pumpCalls driven.subscriber.buckets.length round.input ++ calls, ?_, ?_, hended⟩
        · rw [hlast, hsubscriber, run_append]
          rfl
        · rw [hlog, hevents, hsubscriber, run_append, List.append_assoc]
          rfl
      dsimp only
      split
      · next hdone =>
        refine ⟨pumpCalls driven.subscriber.buckets.length round.input, rfl, rfl,
          fun ended hmem => ?_⟩
        cases hmem
        exact hdone.symm
      · next hopen =>
        rw [Bool.not_eq_true] at hopen
        split
        · exact hrest _ rfl rfl hopen
        · exact hrest _ rfl rfl hopen

end Driven
end Subscriber

/-! ## The callback -/

namespace Showing
open Subscriber

variable {symbol : Bytes} {clock : Nat → UInt64} {messages : List OrderMessage} {showing : Showing}

/-- What the visualizer of a symbol has after messages. -/
def after (symbol : Bytes) (messages : List OrderMessage) : Visualizer :=
  messages.foldl Visualizer.onOrderMessage { symbol }

theorem after_append (msg : OrderMessage) :
    after symbol (messages ++ [msg]) = (after symbol messages).onOrderMessage msg := by
  rw [after, List.foldl_append]
  rfl

theorem symbol_after : (after symbol messages).symbol = symbol := by
  induction messages using List.reverseRecOn with
  | nil => rfl
  | append_singleton messages msg ih =>
      rw [after_append, (Visualizer.onOrderMessage_eq _ msg).1, ih]

/-- What the callback keeps true while the messages are handed over. -/
structure Steady (symbol : Bytes) (clock : Nat → UInt64) (messages : List OrderMessage)
    (showing : Showing) :
    Prop where
  visualizer : showing.visualizer = after symbol messages
  last : showing.lastDraw = 0 ∧ showing.drawn = [] ∨
    ∃ first ladder, showing.drawn = first ++ [(showing.lastDraw, ladder)]
  drawn : ∀ entry ∈ showing.drawn, ∃ n msg, messages[n]? = some msg ∧ symbol = cString msg.symbol ∧
    entry = (clock n, (after symbol (messages.take (n + 1))).draw)
  spaced : showing.drawn.Pairwise fun before later => before.1.toNat + 100000000 < later.1.toNat
  fresh : ∀ n msg, messages[n]? = some msg → symbol = cString msg.symbol →
    (clock n).toNat ≤ 100000000 ∨
    ∃ entry ∈ showing.drawn, entry.1 ≤ clock n ∧ (clock n).toNat ≤ entry.1.toNat + 100000000

theorem Steady.init : Steady symbol clock [] { visualizer := { symbol } } where
  visualizer := rfl
  last := .inl ⟨rfl, rfl⟩
  drawn _ hmem := by cases hmem
  spaced := .nil
  fresh n msg hn := by cases hn

/-- The ladders drawn before stay those of the messages before. -/
theorem Steady.drawn_append (S : Steady symbol clock messages showing) (msg : OrderMessage) :
    ∀ entry ∈ showing.drawn, ∃ n msg', (messages ++ [msg])[n]? = some msg' ∧
      symbol = cString msg'.symbol ∧
      entry = (clock n, (after symbol ((messages ++ [msg]).take (n + 1))).draw) := by
  intro entry hmem
  obtain ⟨n, msg', hn, hsymbol, rfl⟩ := S.drawn entry hmem
  have hlt := (List.getElem?_eq_some_iff.mp hn).1
  refine ⟨n, msg', by rw [List.getElem?_append_left hlt, hn], hsymbol, ?_⟩
  rw [List.take_append_of_le_length hlt]

theorem Steady.lastDraw_le (S : Steady symbol clock messages showing)
    (h : ∀ i j, i ≤ j → clock i ≤ clock j) :
    showing.lastDraw ≤ clock messages.length := by
  rcases S.last with ⟨hzero, -⟩ | ⟨first, ladder, hdrawn⟩
  · rw [hzero]
    exact UInt64.zero_le
  · obtain ⟨n, msg, hn, -, heq⟩ := S.drawn (showing.lastDraw, ladder) (by simp [hdrawn])
    rw [(Prod.mk.inj heq).1]
    exact h _ _ (List.getElem?_eq_some_iff.mp hn).1.le

theorem Steady.le_lastDraw (S : Steady symbol clock messages showing) :
    ∀ entry ∈ showing.drawn, entry.1.toNat ≤ showing.lastDraw.toNat := by
  rcases S.last with ⟨-, hnone⟩ | ⟨first, ladder, hdrawn⟩
  · simp [hnone]
  · intro entry hmem
    have hspaced := S.spaced
    rw [hdrawn, List.pairwise_append] at hspaced
    rw [hdrawn, List.mem_append, List.mem_singleton] at hmem
    rcases hmem with hmem | rfl
    · have hlt := hspaced.2.2 entry hmem _ (.head _)
      dsimp only at hlt
      omega
    · exact le_rfl

theorem getElem?_concat_cases {entries : List α} {a b : α} {n : Nat}
    (h : (entries ++ [a])[n]? = some b) :
    entries[n]? = some b ∨ n = entries.length ∧ b = a := by
  rcases Nat.lt_or_ge n entries.length with hlt | hge
  · rw [List.getElem?_append_left hlt] at h
    exact .inl h
  · rw [List.getElem?_append_right hge, List.getElem?_singleton] at h
    split at h
    · next hzero => exact .inr ⟨by omega, (Option.some.inj h).symm⟩
    · cases h

theorem Steady.onOrderMessage (S : Steady symbol clock messages showing)
    (h : ∀ i j, i ≤ j → clock i ≤ clock j)
    (msg : OrderMessage) :
    Steady symbol clock (messages ++ [msg])
      (showing.onOrderMessage msg (clock messages.length)) := by
  have hwatches : showing.visualizer.watches msg = true ↔ symbol = cString msg.symbol := by
    rw [S.visualizer, Visualizer.watches, symbol_after, decide_eq_true_eq]
  have hlast := S.lastDraw_le h
  rw [Showing.onOrderMessage]
  split
  · next hother =>
    refine ⟨?_, S.last, S.drawn_append msg, S.spaced, fun n msg' hn hsymbol => ?_⟩
    · rw [after_append, ← S.visualizer, Visualizer.onOrderMessage, if_pos hother]
    · rcases getElem?_concat_cases hn with hn | ⟨-, rfl⟩
      · exact S.fresh n msg' hn hsymbol
      · exact absurd (hwatches.mpr hsymbol) hother
  · next hown =>
    have hsymbol : symbol = cString msg.symbol := hwatches.mp (not_not.mp hown)
    have hgap := UInt64.toNat_sub_of_le _ _ hlast
    dsimp only
    split
    · next hdraw =>
      -- a new ladder, more than 100 ms after the last one and so after all
      have hdraw' : 100000000 < (clock messages.length).toNat - showing.lastDraw.toNat :=
        hgap ▸ UInt64.lt_iff_toNat_lt.mp hdraw
      refine ⟨?_, .inr ⟨showing.drawn, _, rfl⟩, fun entry hmem => ?_, ?_,
        fun n msg' hn hsymbol => ?_⟩
      · rw [after_append, ← S.visualizer]
      · rcases List.mem_append.mp hmem with hmem | hmem
        · exact S.drawn_append msg entry hmem
        · refine ⟨messages.length, msg, by simp, hsymbol, ?_⟩
          rw [List.mem_singleton.mp hmem, List.take_of_length_le (by simp), after_append,
            ← S.visualizer]
      · refine List.pairwise_append.mpr ⟨S.spaced, List.pairwise_singleton _ _,
          fun entry hmem later hlater => ?_⟩
        have hentry := S.le_lastDraw entry hmem
        rw [List.mem_singleton.mp hlater]
        dsimp only
        omega
      · rcases getElem?_concat_cases hn with hn | ⟨rfl, -⟩
        · refine (S.fresh n msg' hn hsymbol).imp_right fun hnear => ?_
          obtain ⟨entry, hmem, hnear⟩ := hnear
          exact ⟨entry, List.mem_append_left _ hmem, hnear⟩
        · exact .inr ⟨_, List.mem_append_right _ (.head _), UInt64.le_refl _, Nat.le_add_right ..⟩
    · next hsoon =>
      -- the last ladder is still fresh, if there is one
      have hsoon' : (clock messages.length).toNat - showing.lastDraw.toNat ≤ 100000000 :=
        hgap ▸ UInt64.le_iff_toNat_le.mp (UInt64.not_lt.mp hsoon)
      refine ⟨?_, S.last, S.drawn_append msg, S.spaced, fun n msg' hn hsymbol => ?_⟩
      · rw [after_append, ← S.visualizer]
      · rcases getElem?_concat_cases hn with hn | ⟨rfl, -⟩
        · exact S.fresh n msg' hn hsymbol
        · rcases S.last with ⟨hzero, -⟩ | ⟨first, ladder, hdrawn⟩
          · rw [hzero] at hsoon'
            exact .inl hsoon'
          · refine .inr ⟨(showing.lastDraw, ladder), ?_, hlast, by dsimp only; omega⟩
            rw [hdrawn]
            exact List.mem_append_right _ (.head _)

theorem steady_foldl (h : ∀ i j, i ≤ j → clock i ≤ clock j) (messages : List OrderMessage) :
    Steady symbol clock messages (messages.zipIdx.foldl
      (fun showing entry => showing.onOrderMessage entry.1 (clock entry.2))
      { visualizer := { symbol } }) := by
  induction messages using List.reverseRecOn with
  | nil => exact Steady.init
  | append_singleton messages msg ih =>
    rw [List.zipIdx_append, List.foldl_append, Nat.zero_add]
    exact ih.onOrderMessage h msg

/-! ## `main` -/

theorem handed_eq {events : List Event} {id : Nat} (h : ∀ id', id' ≠ id → history id' events = []) :
    handed events = (delivered (history id events)).map (·.2) := by
  rw [handed, delivered, history, List.filterMap_filterMap, List.map_filterMap]
  refine List.filterMap_congr fun event hmem => ?_
  cases event with
  | bucket id' event =>
    have hid : id' = id := by
      refine not_not.mp fun hne => ?_
      have hown : event ∈ history id' events := List.mem_filterMap.mpr ⟨_, hmem, if_pos rfl⟩
      rw [h id' hne] at hown
      cases hown
    dsimp only
    rw [if_pos hid]
    cases event <;> rfl
  | _ => rfl

theorem of_tally_ended {history : List BucketEvent} :
    0 < tally .ended history ↔ ∃ sequence, .ended sequence ∈ history := by
  rw [tally, List.count_pos_iff, List.mem_map]
  constructor
  · rintro ⟨⟨sequence, outcome⟩, hmem, rfl⟩
    obtain ⟨event, hmem, hevent⟩ := List.mem_filterMap.mp hmem
    cases event <;> cases hevent
    exact ⟨sequence, hmem⟩
  · rintro ⟨sequence, hmem⟩
    exact ⟨(sequence, .ended), List.mem_filterMap.mpr ⟨_, hmem, rfl⟩, rfl⟩

/-- The one bucket, its counter and its flag. -/
theorem loop_stats (started : UInt64) (id : Nat) (backfill : UInt64) (rounds : List Round) :
    let driven := (Driven.loop started { subscriber := Subscriber.init [id] 0 backfill } rounds).1
    ∃ bucket, driven.subscriber.buckets = [bucket] ∧
      bucket.stats.delivered = (handed driven.events).length ∧
      (bucket.done = true ↔ ∃ id sequence, .bucket id (.ended sequence) ∈ driven.events) := by
  intro driven
  obtain ⟨calls, hsubscriber, hevents, -⟩ :=
    @Driven.loop_spec started rounds { subscriber := Subscriber.init [id] 0 backfill } rfl
  have hids : driven.subscriber.buckets.map (·.id) = [id] := by
    rw [hsubscriber, ids_run]
    rfl
  obtain ⟨bucket, hbucket, hid⟩ := List.map_eq_singleton_iff.mp hids
  have hknown (id' : Nat) (hne : id' ≠ id) : history id' driven.events = [] := by
    rw [hevents]
    exact run_known fun hmem => hne (List.mem_singleton.mp hmem)
  have R : Reported (history bucket.id driven.events) bucket := by
    have hinit : ∀ bucket ∈ (Subscriber.init [id] 0 backfill).buckets,
        Reported (history bucket.id []) bucket := by
      intro bucket hmem
      cases List.mem_singleton.mp hmem
      exact ⟨rfl, rfl, rfl⟩
    have hnodup : ((Subscriber.init [id] 0 backfill).buckets.map (·.id)).Nodup :=
      List.nodup_singleton id
    rw [hevents]
    exact run_reported hnodup hinit bucket (by rw [← hsubscriber, hbucket]; exact .head _)
  refine ⟨bucket, hbucket, ?_, ?_⟩
  · rw [R.delivered, handed_eq hknown, List.length_map, hid]
  · have hpos : bucket.done = true ↔ 0 < tally .ended (history bucket.id driven.events) := by
      rw [R.ended]
      cases bucket.done <;> decide
    rw [hpos, of_tally_ended, hid]
    constructor
    · rintro ⟨sequence, hmem⟩
      obtain ⟨event, hmem, hevent⟩ := List.mem_filterMap.mp hmem
      cases event with
      | bucket id' event =>
        dsimp only at hevent
        split at hevent
        · cases hevent
          exact ⟨_, _, hmem⟩
        · cases hevent
      | _ => cases hevent
    · rintro ⟨id', sequence, hmem⟩
      have hown : .ended sequence ∈ history id' driven.events :=
        List.mem_filterMap.mpr ⟨_, hmem, if_pos rfl⟩
      by_cases hne : id' = id
      · exact ⟨sequence, hne ▸ hown⟩
      · rw [hknown id' hne] at hown
        cases hown

/-- **The display.** Whatever the network does, each ladder drawn is that of the messages handed
over until then, and they are more than 100 ms apart; when a message of the symbol is handed over,
the last one is at most 100 ms old (or the clock is). The ladder at the end is that of all the
messages, and `delivered` counts them. If `run` has returned, it has returned true exactly if the
end marker of the bucket was passed. -/
theorem main_shows (bucketCount : Nat) (backfill started : UInt64) (rounds : List Round)
    (h : ∀ i j, i ≤ j → clock i ≤ clock j) :
    let result := main symbol bucketCount backfill started rounds clock
    let first := Subscriber.init [Visualizer.bucketId { symbol } bucketCount] 0 backfill
    let driven := (Driven.loop started { subscriber := first } rounds).1
    let messages := handed driven.events
    let shown n := after symbol (messages.take n)
    (∀ entry ∈ result.showing.drawn, ∃ n msg, messages[n]? = some msg ∧
      symbol = cString msg.symbol ∧
      entry = (clock n, (shown (n + 1)).draw)) ∧
    result.showing.drawn.Pairwise (fun before later => before.1.toNat + 100000000 < later.1.toNat) ∧
    (∀ n msg, messages[n]? = some msg → symbol = cString msg.symbol → (clock n).toNat ≤ 100000000 ∨
      ∃ entry ∈ result.showing.drawn, entry.1 ≤ clock n ∧
      (clock n).toNat ≤ entry.1.toNat + 100000000) ∧
    result.last = (shown messages.length).draw ∧
    (∀ n, Visualizer.Right (shown n).book (shown n).draw) ∧
    result.stats.delivered = messages.length ∧
    (∀ ended ∈ result.ended, ended = true ↔ ∃ id sequence,
      .bucket id (.ended sequence) ∈ driven.events) := by
  intro result first driven messages shown
  have S : Steady symbol clock messages result.showing := steady_foldl h messages
  refine ⟨S.drawn, S.spaced, S.fresh, ?_, fun n => Visualizer.draw_right _, ?_⟩
  · show result.showing.visualizer.draw = _
    rw [S.visualizer]
    simp only [shown, List.take_length]
  · obtain ⟨bucket, hbucket, hdelivered, hdone⟩ :=
      loop_stats started (Visualizer.bucketId { symbol } bucketCount) backfill rounds
    obtain ⟨-, -, -, hended⟩ := @Driven.loop_spec started rounds { subscriber := first } rfl
    refine ⟨?_, fun ended hmem => ?_⟩
    · show driven.subscriber.stats.delivered = _
      rw [Subscriber.stats, hbucket, ← hdelivered]
      exact Nat.zero_add _
    · rw [hended ended hmem, ← hdone, Subscriber.isDone, hbucket]
      exact Bool.and_true bucket.done ▸ Iff.rfl

/-- A round in which datagrams of the bucket arrive. -/
def updateRound (datagrams : List (Nat × OrderMessage)) (now : UInt64) : Round where
  stop := false
  input :=
    { arrivals _ := datagrams.map fun datagram =>
        ⟨(FeedPublisher.packet 0 datagram.1 (FeedPublisher.encodePayload datagram.2)).bytes, now⟩
      recvs := []
      naks _ := ⟨now + 10000000, true, true⟩ }
  now := now + 10000000

/-- Three updates of one level, and the end marker. -/
def updateRounds : List Round :=
  [updateRound [(1, Pipeline.openUpdate), (2, Pipeline.changeUpdate)] 0,
    updateRound [(3, { Pipeline.openUpdate with size := 300 }),
      (4, FeedPublisher.endMessage)] 20000000]

def updateClock : Nat → UInt64
  | 0 => 200000000
  | 1 => 260000000
  | _ => 320000000

theorem updateClock_mono : ∀ i j, i ≤ j → updateClock i ≤ updateClock j
  | 0, 0, _ | 1, 1, _ | _ + 2, _ + 2, _ => UInt64.le_refl _
  | 0, 1, _ => show (200000000 : UInt64) ≤ 260000000 by decide
  | 0, _ + 2, _ => show (200000000 : UInt64) ≤ 320000000 by decide
  | 1, _ + 2, _ => show (260000000 : UInt64) ≤ 320000000 by decide
  | 1, 0, h | _ + 2, 0, h | _ + 2, 1, h => absurd h (by omega)

/-- The second update comes too soon after the first one to be drawn. -/
theorem main_shows_update :
    let result := main [0x5a] 1 4096 0 updateRounds updateClock
    result.showing.drawn.map (fun entry => (entry.1, entry.2.bids)) =
        [(200000000, [⟨5000, 100, 0⟩]), (320000000, [⟨5000, 300, 2⟩])] ∧
      result.showing.drawn.Pairwise (fun before later => before.1.toNat + 100000000 <
        later.1.toNat) ∧
      result.last.bids = [⟨5000, 300, 2⟩] ∧
      result.stats.delivered = 3 ∧ result.ended = some true ∧
      Visualizer.Right (after [0x5a] [Pipeline.openUpdate, Pipeline.changeUpdate,
        { Pipeline.openUpdate with size := 300 }]).book result.last := by
  have hshows := @main_shows [0x5a] updateClock 1 4096 0 updateRounds updateClock_mono
  have hhanded :
      handed (Driven.loop 0 ⟨Subscriber.init [Visualizer.bucketId { symbol := [0x5a] } 1] 0 4096,
        [],
      false⟩ updateRounds).1.events =
      [Pipeline.openUpdate, Pipeline.changeUpdate, { Pipeline.openUpdate with size := 300 }] := by
    decide +kernel
  have hright := hshows.2.2.2.2.1 3
  have hlast := hshows.2.2.2.1
  simp only [hhanded] at hright hlast
  refine ⟨by decide +kernel, hshows.2.1, by decide +kernel, ?_, by decide +kernel, ?_⟩
  · rw [hshows.2.2.2.2.2.1, hhanded]
    rfl
  · rw [hlast]
    exact hright

end Showing
end MegaFeed
