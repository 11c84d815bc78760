import MegaFeed.Verify.GiveUp
import MegaFeed.Verify.Run

/-! # When and what `nak` asks for

A request names the least holes that are due (`picks_toRequest`). A hole carries in `asked` the last
reading at which a request naming it was written (`Paced`), and no number is noticed twice, so
requests for one number are spaced (`Life.paced`). After a failure the next `connect` waits
(`BackedOff.call`). -/

namespace MegaFeed
namespace Subscriber
open Std (ExtTreeMap)
open FeedPublisher (Assigned)

variable {settings : Settings} {start clock now : UInt64} {bucket : Bucket}
  {history events : List BucketEvent} {assigned : List Assigned} {Lost : Nat → Nat → Prop} {s : Nat}

/-! ## Selection -/

/-- A hole that may be asked for. -/
def Hole.Due (hole : Hole) (now nakDelayNs nakRepeatNs : UInt64) : Prop :=
  hole.asked = 0 ∧ now - hole.noticed > nakDelayNs ∨ hole.asked ≠ 0 ∧ now - hole.asked > nakRepeatNs

instance {hole : Hole} {now nakDelayNs nakRepeatNs : UInt64} :
    Decidable (hole.Due now nakDelayNs nakRepeatNs) := inferInstanceAs (Decidable (_ ∨ _))

/-- A number that may be asked for at `now`, after the holes past the deadline are given up. -/
def Bucket.Eligible (settings : Settings) (bucket : Bucket) (now : UInt64) (s : Nat) : Prop :=
  ∃ hole, (bucket.expire now settings.giveupNs).1.holes[s]? = some hole ∧
    hole.Due now settings.nakDelayNs settings.nakRepeatNs

/-- A full batch of the least eligible holes, or all of them. -/
structure Bucket.Picks (settings : Settings) (bucket : Bucket) (now : UInt64)
    (sequences : List Nat) :
    Prop where
  pos : 1 ≤ sequences.length
  batch : sequences.length ≤ MAX_REPAIR_BATCH
  ascending : sequences.Pairwise (· < ·)
  eligible : ∀ s ∈ sequences, bucket.Eligible settings now s
  least : ∀ s, bucket.Eligible settings now s → s ∉ sequences →
    sequences.length = MAX_REPAIR_BATCH ∧ ∀ s' ∈ sequences, s' < s

theorem Bucket.mem_toRequest_due {nakDelayNs nakRepeatNs : UInt64}
    (h : s ∈ bucket.toRequest now nakDelayNs nakRepeatNs) :
    ∃ hole, bucket.holes[s]? = some hole ∧ hole.Due now nakDelayNs nakRepeatNs := by
  obtain ⟨⟨s, hole⟩, hmem, rfl⟩ := List.mem_map.mp h
  obtain ⟨hget, hdue⟩ := List.mem_filter.mp (List.mem_of_mem_take hmem)
  have hdue := of_decide_eq_true hdue
  exact ⟨hole, ExtTreeMap.mem_toList_iff_getElem?_eq_some.mp hget, hdue⟩

/-- The batch is the front of the eligible holes in ascending order. -/
theorem Bucket.picks_toRequest {sequences : List Nat} (hpos : 1 ≤ sequences.length)
    (h : sequences = (bucket.expire now settings.giveupNs).1.toRequest now settings.nakDelayNs
      settings.nakRepeatNs) : bucket.Picks settings now sequences := by
  generalize hleft : (bucket.expire now settings.giveupNs).1 = left at h
  have heligible : ∀ s, bucket.Eligible settings now s ↔
      ∃ hole, left.holes[s]? = some hole ∧
      hole.Due now settings.nakDelayNs settings.nakRepeatNs := by
    intro s
    rw [Eligible, hleft]
  have h : sequences = ((left.holes.toList.filter fun entry =>
      decide (entry.2.Due now settings.nakDelayNs settings.nakRepeatNs)).take MAX_REPAIR_BATCH).map
        (·.1) := h
  generalize hdue : left.holes.toList.filter (fun entry =>
    decide (entry.2.Due now settings.nakDelayNs settings.nakRepeatNs)) = due at h
  have hmem : ∀ (s : Nat) (hole : Hole), (s, hole) ∈ due ↔ left.holes[s]? = some hole ∧
      hole.Due now settings.nakDelayNs settings.nakRepeatNs := by
    intro s hole
    rw [← hdue, List.mem_filter, ExtTreeMap.mem_toList_iff_getElem?_eq_some, decide_eq_true_eq]
  have hordered : (due.map (·.1)).Pairwise (· < ·) := by
    rw [← hdue, List.pairwise_map]
    exact (left.holes.ordered_keys_toList.imp fun hlt => Nat.compare_eq_lt.mp hlt).filter _
  rw [List.map_take] at h
  have hsplit := List.take_append_drop MAX_REPAIR_BATCH (due.map (·.1))
  rw [← h] at hsplit
  rw [← hsplit, List.pairwise_append] at hordered
  obtain ⟨hascending, -, hbelow⟩ := hordered
  refine ⟨hpos, h ▸ List.length_take_le .., hascending, fun s hs => ?_, fun s hs hnot => ?_⟩
  · obtain ⟨⟨s, hole⟩, hdue, rfl⟩ := List.mem_map.mp (List.mem_of_mem_take (h ▸ hs))
    exact (heligible s).mpr ⟨hole, (hmem s hole).mp hdue⟩
  · obtain ⟨hole, hget⟩ := (heligible s).mp hs
    have hall : s ∈ due.map (·.1) := List.mem_map.mpr ⟨(s, hole), (hmem s hole).mpr hget, rfl⟩
    rw [← hsplit] at hall
    have hbehind := (List.mem_append.mp hall).resolve_left hnot
    refine ⟨?_, fun s' hs' => hbelow s' hs' s hbehind⟩
    rw [h, List.length_take]
    have := List.length_pos_of_mem hbehind
    rw [List.length_drop] at this
    omega

/-! ## Spacing -/

/-- Requests for one number are more than `nakRepeatNs` apart. -/
def Spaced (nakRepeatNs : UInt64) (event event' : BucketEvent) : Prop :=
  ∀ (sequences sequences' : List Nat) (now now' : UInt64) (s : Nat),
    event = .requested sequences now →
    event' = .requested sequences' now' → s ∈ sequences → s ∈ sequences' →
      now.toNat + nakRepeatNs.toNat < now'.toNat

/-- What `asked` and `noticed` say about the requests written. -/
structure Paced (settings : Settings) (clock : UInt64) (history : List BucketEvent)
    (bucket : Bucket) :
    Prop where
  once : ∀ s t t', .noticed s t ∈ history → .noticed s t' ∈ history → t = t'
  dated : HolesSatisfy (fun _ hole => hole.noticed ≤ clock) bucket
  unasked : HolesSatisfy (fun s hole => hole.asked = 0 → ¬Asked history s) bucket
  asked : HolesSatisfy (fun s hole => hole.asked ≠ 0 → hole.asked ≤ clock ∧
    hole.noticed.toNat + settings.nakDelayNs.toNat < hole.asked.toNat ∧
    ∀ sequences t, .requested sequences t ∈ history → s ∈ sequences → t ≤ hole.asked) bucket
  delayed : ∀ sequences t s t', .requested sequences t ∈ history → s ∈ sequences →
    .noticed s t' ∈ history → t'.toNat + settings.nakDelayNs.toNat < t.toNat
  spaced : history.Pairwise (Spaced settings.nakRepeatNs)

theorem lt_of_age {t delay : UInt64} (hle : t ≤ now) (h : now - t > delay) :
    t.toNat + delay.toNat < now.toNat := by
  rw [gt_iff_lt, UInt64.lt_iff_toNat_lt, UInt64.toNat_sub_of_le _ _ hle] at h
  omega

/-- A number is noticed above all numbers noticed or asked for before. -/
theorem Life.fresh {firstExpected : UInt64} {id sequence : Nat}
    (L : Life settings (Timed (Honest assigned Lost)) start
      (newBucket firstExpected id) clock history
      bucket) (h : s ∈ (bucket.joined settings.backfill sequence).missing sequence) :
    ¬Asked history s ∧ ∀ t, .noticed s t ∉ history := by
  rcases L.kept.state with H | ⟨S, -, H⟩
  · refine ⟨H.quiet.2.2 s, fun t hnoticed => ?_⟩
    obtain ⟨s', -, harrived⟩ := L.noticed hnoticed
    have hmem := mem_arrived harrived
    rw [H.quiet.1] at hmem
    cases hmem
  · rw [Bucket.joined_of_synced H.synced] at h
    have hhigh := H.frontier.le_missing h
    refine ⟨fun hasked => ?_, fun t hnoticed => ?_⟩
    · have := H.asked s hasked
      omega
    · obtain ⟨s', hlt, harrived⟩ := L.noticed hnoticed
      have hle : s' ≤ highest S history := le_highest harrived
      omega

/-- A number that is asked for again was last asked for more than `nakRepeatNs` ago. -/
theorem Paced.due {hole : Hole} (P : Paced settings clock history bucket) (hnow : clock ≤ now)
    (hget : bucket.holes[s]? = some hole)
    (hdue : hole.Due now settings.nakDelayNs settings.nakRepeatNs) :
    hole.noticed.toNat + settings.nakDelayNs.toNat < now.toNat ∧
      ∀ sequences t, .requested sequences t ∈ history → s ∈ sequences →
        t.toNat + settings.nakRepeatNs.toNat < now.toNat := by
  have hnoticed := UInt64.le_trans (P.dated s hole hget) hnow
  rcases hdue with ⟨hnever, hage⟩ | ⟨hasked, hage⟩
  · exact ⟨lt_of_age hnoticed hage, fun sequences t hmem hs =>
      (P.unasked s hole hget hnever ⟨sequences, t, hmem, hs⟩).elim⟩
  · obtain ⟨hclock, hdelay, hlast⟩ := P.asked s hole hget hasked
    have hspace := lt_of_age (UInt64.le_trans hclock hnow) hage
    refine ⟨by omega, fun sequences t hmem hs => ?_⟩
    have := UInt64.le_iff_toNat_le.mp (hlast sequences t hmem hs)
    omega

theorem Paced.wait {clock' : UInt64} (P : Paced settings clock history bucket)
    (hle : clock ≤ clock') :
    Paced settings clock' history bucket :=
  { P with
    dated := P.dated.mono fun _ _ h => UInt64.le_trans h hle
    asked := P.asked.mono fun _ _ h hne => ⟨UInt64.le_trans (h hne).1 hle, (h hne).2⟩ }

section
variable {act : Act}

theorem emits_noticed {t : UInt64} (h : .noticed s t ∈ (bucket.act settings act).2) :
    ∃ sequence msg, act = .accept sequence msg t ∧
      s ∈ (bucket.joined settings.backfill sequence).missing sequence := by
  cases Bucket.emits_of_mem h with
  | noticed hmissing => exact ⟨_, _, rfl, hmissing⟩
  | passed houtcome => cases houtcome

theorem emits_requested {sequences : List Nat} {t : UInt64}
    (h : .requested sequences t ∈ (bucket.act settings act).2) :
    act = .request t ∧ sequences = bucket.toRequest t settings.nakDelayNs settings.nakRepeatNs := by
  cases Bucket.emits_of_mem h with
  | requested => exact ⟨rfl, rfl⟩
  | passed houtcome => cases houtcome

/-- An act asks at most once. -/
theorem spaced_act : (bucket.act settings act).2.Pairwise (Spaced settings.nakRepeatNs) := by
  cases act with
  | request now =>
    rw [Bucket.act]
    split
    · exact .nil
    · exact List.pairwise_singleton _ _
  | accept | frame | expire | deliver =>
    refine List.pairwise_of_forall_mem_list fun event hmem event' _ => ?_
    rintro sequences _ now _ _ rfl - - -
    cases (emits_requested hmem).1

end

theorem Paced.after {firstExpected : UInt64} {id : Nat} {act : Act}
    (L : Life settings (Timed (Honest assigned Lost)) start
      (newBucket firstExpected id) clock history
      bucket) (P : Paced settings clock history bucket) (hpos : 0 < clock)
    (hnow : ∀ now ∈ act.now, clock ≤ now) :
    Paced settings (act.now.getD clock) (history ++ (bucket.act settings act).2)
      (bucket.act settings act).1 := by
  have hclock : clock ≤ act.now.getD clock := by
    cases hreading : act.now with
    | none => exact UInt64.le_refl _
    | some now => exact hnow now hreading
  have hfresh : ∀ {s t}, .noticed s t ∈ (bucket.act settings act).2 →
      ¬Asked history s ∧ ∀ t, .noticed s t ∉ history := fun h => by
    obtain ⟨sequence, msg, -, hmissing⟩ := emits_noticed h
    exact L.fresh hmissing
  -- what the request of the act names is due
  have hrequest : ∀ {sequences t s}, .requested sequences t ∈ (bucket.act settings act).2 →
      s ∈ sequences →
      ∃ hole, bucket.holes[s]? = some hole ∧
        hole.noticed.toNat + settings.nakDelayNs.toNat < t.toNat ∧
        ∀ sequences' t', .requested sequences' t' ∈ history → s ∈ sequences' →
          t'.toNat + settings.nakRepeatNs.toNat < t.toNat := fun h hs => by
    obtain ⟨rfl, rfl⟩ := emits_requested h
    obtain ⟨hole, hget, hdue⟩ := Bucket.mem_toRequest_due hs
    exact ⟨hole, hget, P.due (hnow _ rfl) hget hdue⟩
  refine ⟨fun s t t' ht ht' => ?_, fun s hole hget => ?_, fun s hole hget hnever => ?_,
    fun s hole hget hasked => ?_, fun sequences t s t' hasked hs hnoticed => ?_, ?_⟩
  · rcases List.mem_append.mp ht with ht | ht <;> rcases List.mem_append.mp ht' with ht' | ht'
    · exact P.once s t t' ht ht'
    · exact ((hfresh ht').2 t ht).elim
    · exact ((hfresh ht).2 t' ht').elim
    · obtain ⟨_, _, heq, -⟩ := emits_noticed ht
      obtain ⟨_, _, heq', -⟩ := emits_noticed ht'
      cases heq.symm.trans heq'
      rfl
  · cases Bucket.act_holes hget with
    | opened hhole => exact hhole ▸ UInt64.le_refl _
    | kept hold => exact UInt64.le_trans (P.dated s hole hold) hclock
    | stamped hold hhole =>
      have hdated := P.dated s _ hold
      exact hhole ▸ UInt64.le_trans hdated hclock
  · rw [asked_append]
    cases Bucket.act_holes hget with
    | opened _ hmissing hnoticed =>
      refine not_or.mpr ⟨(L.fresh hmissing).1, fun hasked => ?_⟩
      obtain ⟨_, heq, -⟩ := Bucket.asked_act hasked
      cases heq
    | kept hold hquiet => exact not_or.mpr ⟨P.unasked s hole hold hnever, hquiet⟩
    | stamped hold hhole =>
      -- the clock is positive, so a stamp is no zero
      rw [hhole] at hnever
      have hlate := hnow _ rfl
      dsimp only at hnever
      rw [hnever] at hlate
      exact (UInt64.not_lt.mpr hlate hpos).elim
  · cases Bucket.act_holes hget with
    | opened hhole => exact (hasked (hhole ▸ rfl)).elim
    | kept hold hquiet =>
      obtain ⟨hbefore, hdelay, hlast⟩ := P.asked s hole hold hasked
      refine ⟨UInt64.le_trans hbefore hclock, hdelay, fun sequences t hmem hs => ?_⟩
      rcases List.mem_append.mp hmem with hmem | hmem
      · exact hlast sequences t hmem hs
      · exact (hquiet ⟨sequences, t, hmem, hs⟩).elim
    | @stamped now old hold hhole hmem =>
      obtain ⟨due, hget', hdue⟩ := Bucket.mem_toRequest_due hmem
      cases hold.symm.trans hget'
      obtain ⟨hdelay, hspace⟩ := P.due (hnow now rfl) hold hdue
      rw [hhole]
      refine ⟨UInt64.le_refl _, hdelay, fun sequences t hmem hs => ?_⟩
      rcases List.mem_append.mp hmem with hmem | hmem
      · have := hspace sequences t hmem hs
        rw [UInt64.le_iff_toNat_le]
        dsimp only
        omega
      · cases (emits_requested hmem).1
        exact UInt64.le_refl _
  · rcases List.mem_append.mp hasked with hasked | hasked <;>
      rcases List.mem_append.mp hnoticed with hnoticed | hnoticed
    · exact P.delayed sequences t s t' hasked hs hnoticed
    · exact ((hfresh hnoticed).1 ⟨sequences, t, hasked, hs⟩).elim
    · obtain ⟨hole, hget, hdelay, -⟩ := hrequest hasked hs
      rwa [P.once s t' hole.noticed hnoticed (L.hole (newBucket_maps _ _).1 hget)]
    · obtain ⟨_, _, heq, -⟩ := emits_noticed hnoticed
      cases heq.symm.trans (emits_requested hasked).1
  · refine List.pairwise_append.mpr ⟨P.spaced, spaced_act, fun event hmem event' hmem' => ?_⟩
    rintro sequences sequences' t t' s rfl rfl hs hs'
    obtain ⟨hole, -, -, hspace⟩ := hrequest hmem' hs'
    exact hspace sequences t hmem hs

theorem Life.start_le {Allowed : List BucketEvent → Bucket → Act → Prop} {first : Bucket}
    (L : Life settings (Timed Allowed) start first clock history bucket) : start ≤ clock := by
  induction L with
  | new => exact UInt64.le_refl _
  | act act _ hallowed ih =>
    cases hreading : act.now with
    | none => exact ih
    | some now => exact UInt64.le_trans ih (hallowed.1 now hreading)
  | wait _ hle ih => exact UInt64.le_trans ih hle

theorem Life.paced {firstExpected : UInt64} {id : Nat}
    (L : Life settings (Timed (Honest assigned Lost)) start
      (newBucket firstExpected id) clock history
      bucket) (hstart : 0 < start) : Paced settings clock history bucket := by
  induction L with
  | new =>
    have hget : ∀ (s : Nat) (hole : Hole), (newBucket firstExpected id).holes[s]? ≠ some hole :=
      fun s hole hs => (newBucket_maps _ _).1 s (ExtTreeMap.mem_of_getElem? hs)
    exact ⟨nofun, fun s hole hs => (hget s hole hs).elim, fun s hole hs => (hget s hole hs).elim,
      fun s hole hs => (hget s hole hs).elim, nofun, .nil⟩
  | act act L hallowed ih => exact ih.after L (UInt64.lt_of_lt_of_le hstart L.start_le) hallowed.1
  | wait _ hle ih => exact ih.wait hle

/-! ## Back-off -/

section
variable {subscriber subscriber' : Subscriber} {log events : List Event} {input : NakInput}

/-- A `connect` or a write that failed. -/
def Event.Failed (now : UInt64) (event : Event) : Prop :=
  event = .connect false now ∨ event = .writeFailed now

/-- No `connect` before `repairRetryNs` after a failure. -/
def Waits (repairRetryNs : UInt64) (event event' : Event) : Prop :=
  ∀ (now now' : UInt64) (succeeded : Bool), event.Failed now → event' = .connect succeeded now' →
    now + repairRetryNs ≤ now'

/-- After every failure the back-off is over, or it is the one that is waited for. -/
structure BackedOff (clock : UInt64) (log : List Event) (subscriber : Subscriber) : Prop where
  waited : log.Pairwise (Waits subscriber.repairRetryNs)
  failed : ∀ event ∈ log, ∀ now, event.Failed now → now + subscriber.repairRetryNs ≤ clock ∨
    subscriber.repairOpen = false ∧ now + subscriber.repairRetryNs = subscriber.repairBlockedUntil

/-- Events that neither connect nor fail. -/
theorem BackedOff.append (B : BackedOff clock log subscriber) {clock' : UInt64}
    (hle : clock ≤ clock')
    (h : ∀ event ∈ events, ∀ now, ¬event.Failed now ∧ ∀ succeeded, event ≠ .connect succeeded now)
    (hretry : subscriber'.repairRetryNs = subscriber.repairRetryNs)
    (hblocked : subscriber'.repairBlockedUntil = subscriber.repairBlockedUntil)
    (hopen : subscriber.repairOpen = false → subscriber'.repairOpen = false) :
    BackedOff clock' (log ++ events) subscriber' where
  waited := by
    rw [hretry]
    refine List.pairwise_append.mpr
      ⟨B.waited, List.pairwise_of_forall_mem_list fun event hmem _ _ => ?_,
      fun event _ event' hmem' => ?_⟩
    · exact fun now _ _ hfailed _ => ((h event hmem now).1 hfailed).elim
    · exact fun _ now succeeded _ heq => ((h event' hmem' now).2 succeeded heq).elim
  failed := by
    intro event hmem now hfailed
    rw [hretry, hblocked]
    rcases List.mem_append.mp hmem with hmem | hmem
    · exact (B.failed event hmem now hfailed).imp (UInt64.le_trans · hle) (·.imp_left hopen)
    · exact ((h event hmem now).1 hfailed).elim

/-- Every back-off is over when `nak` may connect, and when there is a connection. -/
theorem BackedOff.over (B : BackedOff clock log subscriber) (hnow : clock ≤ now)
    (hready : subscriber.repairOpen = false → subscriber.repairBlockedUntil ≤ now) :
    ∀ event ∈ log, ∀ t, event.Failed t → t + subscriber.repairRetryNs ≤ now := by
  intro event hmem t hfailed
  rcases B.failed event hmem t hfailed with hover | ⟨hclosed, hblocked⟩
  · exact UInt64.le_trans hover hnow
  · exact hblocked ▸ hready hclosed

/-- One more event at `now`, when every back-off is over. -/
theorem backedOff_add {event : Event} (hwaited : log.Pairwise (Waits subscriber.repairRetryNs))
    (hover : ∀ event ∈ log, ∀ t, event.Failed t → t + subscriber.repairRetryNs ≤ now)
    (hconnect : ∀ succeeded t, event = .connect succeeded t → t = now)
    (hfailed : ∀ t, event.Failed t → subscriber.repairOpen = false ∧
      t + subscriber.repairRetryNs = subscriber.repairBlockedUntil) :
    BackedOff now (log ++ [event]) subscriber where
  waited := by
    refine List.pairwise_append.mpr ⟨hwaited, List.pairwise_singleton _ _,
      fun earlier hmem last hlast => ?_⟩
    intro t t' succeeded hearlier heq
    rw [hconnect succeeded t' (List.mem_singleton.mp hlast ▸ heq)]
    exact hover earlier hmem t hearlier
  failed := by
    intro earlier hmem t hearlier
    rcases List.mem_append.mp hmem with hmem | hmem
    · exact .inl (hover earlier hmem t hearlier)
    · exact .inr (hfailed t (List.mem_singleton.mp hmem ▸ hearlier))

/-- A `connect` that succeeds comes after every back-off and starts none. -/
theorem BackedOff.connected (B : BackedOff clock log subscriber) (hnow : clock ≤ input.now)
    (hready : subscriber.repairOpen = false → subscriber.repairBlockedUntil ≤ input.now) :
    (log ++ connected subscriber input).Pairwise (Waits subscriber.repairRetryNs) ∧
      ∀ event ∈ log ++ connected subscriber input, ∀ t, event.Failed t →
        t + subscriber.repairRetryNs ≤ input.now := by
  have hover := B.over hnow hready
  rw [Subscriber.connected]
  split
  · rw [List.append_nil]
    exact ⟨B.waited, hover⟩
  · have hnever : ∀ t, ¬(Event.connect true input.now).Failed t := fun t h => by
      rcases h with heq | heq <;> cases heq
    have hadd : BackedOff input.now (log ++ [.connect true input.now]) subscriber :=
      backedOff_add B.waited hover (fun _ _ heq => by cases heq; rfl) fun t h => (hnever t h).elim
    refine ⟨hadd.waited, fun event hmem t hfailed => ?_⟩
    rcases List.mem_append.mp hmem with hmem | hmem
    · exact hover event hmem t hfailed
    · exact (hnever t (List.mem_singleton.mp hmem ▸ hfailed)).elim

theorem BackedOff.asks {bucket' : Bucket} (B : BackedOff clock log subscriber)
    (hnow : clock ≤ input.now)
    (h : Asks subscriber bucket input (subscriber', bucket', events)) :
    BackedOff input.now (log ++ events) subscriber' := by
  cases h with
  | waits => exact B.append hnow nofun rfl rfl fun h => h
  | refused hclosed hready =>
    refine backedOff_add B.waited (B.over hnow fun _ => hready)
      (fun _ _ heq => by cases heq; rfl) ?_
    rintro t (heq | heq) <;> cases heq
    exact ⟨hclosed, rfl⟩
  | failed hready =>
    obtain ⟨hwaited, hover⟩ := B.connected hnow hready
    rw [← List.append_assoc]
    refine backedOff_add hwaited hover nofun ?_
    rintro t (heq | heq) <;> cases heq
    exact ⟨rfl, rfl⟩
  | written sequences hready =>
    obtain ⟨hwaited, hover⟩ := B.connected hnow hready
    rw [← List.append_assoc]
    refine backedOff_add hwaited hover nofun ?_
    rintro t (heq | heq) <;> cases heq

theorem not_failed_bucket {id : Nat} {event : BucketEvent} (now : UInt64) :
    ¬(Event.bucket id event).Failed now ∧ ∀ succeeded,
      .bucket id event ≠ Event.connect succeeded now :=
  ⟨(by rintro (heq | heq) <;> cases heq), nofun⟩

theorem BackedOff.atBucket (B : BackedOff clock log subscriber) {clock' : UInt64}
    (hle : clock ≤ clock')
    (i : Nat) (action : Bucket → Bucket × List BucketEvent) :
    BackedOff clock' (log ++ (subscriber.atBucket i action).2)
      (subscriber.atBucket i action).1 := by
  rw [Subscriber.atBucket]
  split
  · exact B.append hle (by simp) rfl rfl fun h => h
  · refine B.append hle (fun event hmem now => ?_) rfl rfl fun h => h
    obtain ⟨event, -, rfl⟩ := List.mem_map.mp hmem
    exact not_failed_bucket now

theorem BackedOff.drainTcp (B : BackedOff clock log subscriber) (recvs : List Recv) :
    BackedOff clock (log ++ (subscriber.call (.drainTcp recvs)).2)
      (subscriber.call (.drainTcp recvs)).1 := by
  have hsame : clock ≤ clock := UInt64.le_refl _
  rw [Subscriber.call]
  split
  · rw [Subscriber.drainTcp]
    split
    · refine B.append hsame (fun event hmem now => ?_) rfl rfl fun _ => rfl
      rw [List.mem_singleton.mp hmem]
      exact ⟨(by rintro (heq | heq) <;> cases heq), by simp⟩
    · next bytes _ =>
      have hevents : ∀ event ∈ (frameLoop bytes.length subscriber.buckets bytes).2.2, ∀ now,
          ¬event.Failed now ∧ ∀ succeeded, event ≠ .connect succeeded now := by
        intro event hmem now
        rcases frameLoop_events event hmem with ⟨_, _, _, rfl⟩ | rfl
        · exact not_failed_bucket now
        · exact ⟨(by rintro (heq | heq) <;> cases heq), by simp⟩
      split
      · next heq =>
        rw [heq] at hevents
        exact B.append hsame hevents rfl rfl fun _ => rfl
      · next heq =>
        rw [heq] at hevents
        exact B.append hsame hevents rfl rfl fun h => h
  · exact B.append hsame (by simp) rfl rfl fun h => h

theorem BackedOff.nak (B : BackedOff clock log subscriber) (hnow : clock ≤ input.now) (i : Nat) :
    BackedOff input.now (log ++ (subscriber.call (.nak i input)).2)
      (subscriber.call (.nak i input)).1 := by
  rw [Subscriber.call]
  split
  · exact B.append hnow (by simp) rfl rfl fun h => h
  · next bucket hbucket =>
    rcases nak_cases subscriber bucket input with ⟨-, heq⟩ | ⟨-, subscriber', bucket',
      events, hasks, heq⟩
    · rw [heq]
      exact B.append hnow (by simp) rfl rfl fun h => h
    · rw [heq]
      have B' : BackedOff clock (log ++ (bucket.expire input.now subscriber.giveupNs).2.map
          (.bucket bucket.id)) subscriber := by
        refine B.append (UInt64.le_refl _) (fun event hmem now => ?_) rfl rfl fun h => h
        obtain ⟨event, -, rfl⟩ := List.mem_map.mp hmem
        exact not_failed_bucket now
      have B'' := B'.asks hnow hasks
      rw [List.append_assoc] at B''
      exact ⟨B''.waited, B''.failed⟩

theorem BackedOff.call (B : BackedOff clock log subscriber) (call : Call)
    (hclock : (clock :: call.readings).Pairwise (· ≤ ·)) :
    BackedOff (call.readings.getLast?.getD clock) (log ++ (subscriber.call call).2)
      (subscriber.call call).1 := by
  cases call with
  | drainUdp i arrivals =>
    have B' := B.atBucket (le_last hclock _ (.head _)) i fun bucket =>
      Subscriber.drainUdp subscriber.backfill bucket arrivals
    exact ⟨B'.waited, B'.failed⟩
  | drainTcp recvs => exact B.drainTcp recvs
  | nak i input => exact B.nak ((List.pairwise_cons.mp hclock).1 _ (.head _)) i
  | deliver i => exact B.atBucket (UInt64.le_refl _) i (·.deliver)

/-! ## Calls -/

/-- The batch a `nak` at `now` writes. -/
def Bucket.batch (settings : Settings) (bucket : Bucket) (now : UInt64) : List Nat :=
  (bucket.expire now settings.giveupNs).1.toRequest now settings.nakDelayNs settings.nakRepeatNs

/-- A request that is written, or a write that fails. -/
inductive Writes (subscriber : Subscriber) : Event → Prop
  | written {bucket : Bucket} {sequences : List Nat} {now : UInt64}
    (h : bucket ∈ subscriber.buckets)
    (hpicks : bucket.Picks subscriber.settings now sequences) :
    Writes subscriber (.bucket bucket.id (.requested sequences now))
  | failed {bucket : Bucket} {now : UInt64} (h : bucket ∈ subscriber.buckets)
    (hpicks : bucket.Picks subscriber.settings now (bucket.batch subscriber.settings now)) :
    Writes subscriber (.writeFailed now)
  | other {event : Event} (hwritten : ∀ id sequences now,
      event ≠ .bucket id (.requested sequences now))
    (hfailed : ∀ now, event ≠ .writeFailed now) : Writes subscriber event

theorem writes_silent {id : Nat} {event : BucketEvent} (h : event.Silent) :
    subscriber.Writes (.bucket id event) := by
  refine .other (fun id sequences now heq => ?_) nofun
  cases heq
  exact h

theorem Asks.writes {bucket bucket' : Bucket} (hbucket : bucket ∈ subscriber.buckets)
    (h : Asks subscriber (bucket.expire input.now subscriber.giveupNs).1 input
      (subscriber', bucket', events)) : ∀ event ∈ events, subscriber.Writes event := by
  have hconnected : ∀ event ∈ Subscriber.connected subscriber input, subscriber.Writes event := by
    unfold Subscriber.connected
    split
    · exact nofun
    · exact List.forall_mem_singleton.mpr (.other nofun nofun)
  cases h with
  | waits => exact nofun
  | refused => exact List.forall_mem_singleton.mpr (.other nofun nofun)
  | failed hready hpos =>
    refine List.forall_mem_append.mpr ⟨hconnected, List.forall_mem_singleton.mpr ?_⟩
    exact .failed hbucket (Bucket.picks_toRequest hpos rfl)
  | written sequences hready hdue hpos =>
    refine List.forall_mem_append.mpr ⟨hconnected, List.forall_mem_singleton.mpr ?_⟩
    have hpicks : bucket.Picks subscriber.settings input.now sequences :=
      Bucket.picks_toRequest hpos hdue
    exact @Writes.written subscriber bucket sequences input.now hbucket hpicks

theorem call_writes (subscriber : Subscriber) (call : Call) :
    ∀ event ∈ (subscriber.call call).2, subscriber.Writes event := by
  have hat : ∀ (i : Nat) (action : Bucket → Bucket × List BucketEvent),
      (∀ bucket, ∀ event ∈ (action bucket).2, event.Silent) →
      ∀ event ∈ (subscriber.atBucket i action).2, subscriber.Writes event := by
    intro i action h event hmem
    rw [atBucket] at hmem
    split at hmem
    · cases hmem
    · obtain ⟨event, hevent, rfl⟩ := List.mem_map.mp hmem
      exact writes_silent (h _ event hevent)
  intro event hmem
  cases call with
  | drainUdp i arrivals => exact hat i _ (fun _ => id_silent_drainUdp.2) event hmem
  | drainTcp recvs =>
    rw [Subscriber.call] at hmem
    split at hmem
    · rw [Subscriber.drainTcp] at hmem
      split at hmem
      · rw [List.mem_singleton.mp hmem]
        exact .other (by simp) (by simp)
      · next bytes _ =>
        have hevents : ∀ event ∈ (frameLoop bytes.length subscriber.buckets bytes).2.2,
            subscriber.Writes event := by
          intro event hmem
          rcases frameLoop_events event hmem with ⟨_, _, _, rfl⟩ | rfl
          · exact writes_silent trivial
          · exact .other (by simp) (by simp)
        split at hmem
        · next heq =>
          rw [heq] at hevents
          exact hevents event hmem
        · next heq =>
          rw [heq] at hevents
          exact hevents event hmem
    · cases hmem
  | nak i input =>
    rw [Subscriber.call] at hmem
    split at hmem
    · cases hmem
    · next bucket hbucket =>
      rcases nak_cases subscriber bucket input with ⟨-, heq⟩ | ⟨-, subscriber', bucket',
        events, hasks, heq⟩
      · rw [heq] at hmem
        cases hmem
      · rw [heq] at hmem
        rcases List.mem_append.mp hmem with hmem | hmem
        · obtain ⟨event, hevent, rfl⟩ := List.mem_map.mp hmem
          obtain ⟨s, -, rfl⟩ := List.mem_map.mp hevent
          exact .other (by simp) (by simp)
        · exact hasks.writes (List.mem_of_getElem? hbucket) event hmem
  | deliver i => exact hat i _ (fun _ => (Bucket.deliverLoop_rounds _ _).id_silent.2) event hmem

end

end Subscriber

namespace World
open Subscriber

variable {bucketCount ringSize : Nat} [NeZero bucketCount] [NeZero ringSize] {session : Session}
  {start : UInt64} {world world' : World bucketCount ringSize}
  {earlier : List (World bucketCount ringSize)}

theorem BackedOff.step (B : BackedOff world.clock world.log world.subscriber)
    (hstep : Step world world') : BackedOff world'.clock world'.log world'.subscriber := by
  cases hstep with
  | publisher => exact B
  | serve hlink halive =>
    obtain ⟨hsubscriber, -, hclock, hlog⟩ := serve_same world _
    rw [hsubscriber, hclock, hlog]
    exact B
  | cut => exact B
  | @drainUdp i bucket arrivals _ _ _ hclock => exact B.call (.drainUdp i arrivals) hclock
  | drainTcp recvs taken => exact B.call (.drainTcp recvs) (List.pairwise_singleton _ _)
  | @nak i input _ _ hclock => exact B.call (.nak i input) (List.pairwise_pair.mpr hclock)
  | @deliver i => exact B.call (.deliver i) (List.pairwise_singleton _ _)
  | again => exact B

theorem Run.backedOff (h : Run session start (world :: earlier)) :
    BackedOff world.clock world.log world.subscriber := by
  generalize hworlds : world :: earlier = worlds at h
  induction h generalizing world earlier with
  | init =>
    cases hworlds
    exact ⟨.nil, nofun⟩
  | step hrun hstep ih =>
    cases hworlds
    exact BackedOff.step (ih rfl) hstep

theorem Step.writes (hstep : Step world world') :
    ∀ event ∈ world'.log.drop world.log.length, world.subscriber.Writes event := by
  have hcall : ∀ (call : Subscriber.Call),
      ∀ event ∈ (world.log ++ (world.subscriber.call call).2).drop world.log.length,
        world.subscriber.Writes event := by
    intro call event hmem
    rw [List.drop_left] at hmem
    exact call_writes world.subscriber call event hmem
  have hquiet : ∀ event ∈ world.log.drop world.log.length, world.subscriber.Writes event := by
    rw [List.drop_length]
    exact nofun
  cases hstep with
  | publisher => exact hquiet
  | serve hlink halive =>
    rw [(serve_same world _).2.2.2]
    exact hquiet
  | cut => exact hquiet
  | @drainUdp i _ arrivals => exact hcall (.drainUdp i arrivals)
  | drainTcp recvs taken => exact hcall (.drainTcp recvs)
  | @nak i input => exact hcall (.nak i input)
  | @deliver i => exact hcall (.deliver i)
  | again => exact hquiet

/-- **Requests are paced.** Every request names the least eligible holes, at most a full batch, in
ascending order. A number is asked for more than `nakDelayNs` after it was noticed and not again for
`nakRepeatNs`. After a failure nothing connects for `repairRetryNs`. -/
theorem requests_paced (h : Run session start (world :: earlier)) (hstart : 0 < start) :
    (∀ world', Step world world' → ∀ event ∈ world'.log.drop world.log.length,
      (∀ id sequences now, event = .bucket id (.requested sequences now) →
        ∃ bucket ∈ world.subscriber.buckets, bucket.id = id ∧
          bucket.Picks world.subscriber.settings now sequences) ∧
      ∀ now, event = .writeFailed now → ∃ bucket ∈ world.subscriber.buckets,
        bucket.Picks world.subscriber.settings now (bucket.batch world.subscriber.settings now)) ∧
    (∀ bucket ∈ world.subscriber.buckets,
      (∀ sequences now s, .requested sequences now ∈ history bucket.id world.log → s ∈ sequences →
        (∃ noticed, .noticed s noticed ∈ history bucket.id world.log) ∧
        ∀ noticed, .noticed s noticed ∈ history bucket.id world.log →
          noticed.toNat + world.subscriber.nakDelayNs.toNat < now.toNat) ∧
      (history bucket.id world.log).Pairwise (Spaced world.subscriber.nakRepeatNs)) ∧
    world.log.Pairwise (Waits world.subscriber.repairRetryNs) := by
  refine ⟨fun world' hstep event hmem => ?_, fun bucket hbucket => ?_, h.backedOff.waited⟩
  · cases hstep.writes event hmem with
    | written hbucket hpicks =>
      exact ⟨fun id sequences now heq => by cases heq; exact ⟨_, hbucket, rfl, hpicks⟩, nofun⟩
    | failed hbucket hpicks =>
      exact ⟨nofun, fun now heq => by cases heq; exact ⟨_, hbucket, hpicks⟩⟩
    | other hwritten hfailed =>
      exact ⟨fun id sequences now heq => (hwritten id sequences now heq).elim,
        fun now heq => (hfailed now heq).elim⟩
  · have L := h.lives.lives bucket hbucket
    have P := L.paced hstart
    refine ⟨fun sequences now s hmem hs => ⟨?_, fun noticed hnoticed => ?_⟩, P.spaced⟩
    · exact L.asked (newBucket_maps _ _).1 ⟨sequences, now, hmem, hs⟩
    · exact P.delayed sequences now s noticed hmem hs hnoticed

/-- The late session at a positive clock: the end marker arrives at 1000, a request is away 10
ms later. -/
def lateAskedAt1000 : World 1 1 :=
  latePump { latePublished with clock := 1000 } (FeedPublisher.packet 0 2
    (FeedPublisher.encodePayload FeedPublisher.endMessage)) 1000

theorem requests_paced_late : ∃ bucket ∈ lateAskedAt1000.subscriber.buckets,
    .requested [1] 10001000 ∈ history bucket.id lateAskedAt1000.log ∧
    ∀ noticed, .noticed 1 noticed ∈ history bucket.id lateAskedAt1000.log →
      noticed.toNat + lateAskedAt1000.subscriber.nakDelayNs.toNat < 10001000 := by
  obtain ⟨_, hpublished⟩ := run_latePublished 1000
  obtain ⟨_, h⟩ := hpublished.latePump 1000 rfl (.tail _ (.head _)) rfl (by decide) (by decide)
  obtain ⟨bucket, hbuckets, hid⟩ := h.one_bucket
  have hmem : bucket ∈ lateAskedAt1000.subscriber.buckets := hbuckets ▸ .head _
  have hrequested : .requested [1] 10001000 ∈ history bucket.id lateAskedAt1000.log := by
    rw [hid]
    decide
  exact ⟨bucket, hmem, hrequested,
    (((requests_paced h (by decide)).2.1 bucket hmem).1 [1] 10001000 1 hrequested (.head _)).2⟩

end World
end MegaFeed
