import MegaFeed.Verify.Life

/-! # Arrival order does not matter

`Reached` describes a bucket by what was published and what of it has arrived, not by the order in
which it did. After a last `deliver`, when everything has arrived, nothing of the order is left
(`Reached.complete`), so any two such lives end alike (`arrival_order_irrelevant`), unless the
sequence numbers run out (`arrival_order_wraps`). -/

namespace MegaFeed
namespace Subscriber
open Std (ExtTreeMap ExtTreeSet)

variable {settings : Settings} {published : ExtTreeMap Nat OrderMessage} {start clock now : UInt64}
  {bucket bucket' : Bucket} {history events : List BucketEvent} {N M s sequence : Nat}
  {msg : OrderMessage}

/-- What is published arrives, by datagram or by repair frame, and nothing is given up. -/
def Arriving (settings : Settings) (published : ExtTreeMap Nat OrderMessage) (_ : UInt64)
    (_ : List BucketEvent) (bucket : Bucket) : Act → Prop
  | .accept sequence msg _ => published[sequence]? = some msg
  | .frame sequence (some msg) => published[sequence]? = some msg
  | .frame _ none => False
  | .expire now => bucket.expired now settings.giveupNs = []
  | .request _ | .deliver => True

/-- A message has arrived. -/
def Received (history : List BucketEvent) (s : Nat) : Prop :=
  .arrived s ∈ history ∨ ∃ msg, .frame s (some msg) ∈ history

/-- Everything published has arrived. -/
def Complete (published : ExtTreeMap Nat OrderMessage) (history : List BucketEvent) : Prop :=
  ∀ s ∈ published, Received history s

/-- From `N` on there is a number that is not published, or the end marker, before the
numbers run out. -/
def Ends (published : ExtTreeMap Nat OrderMessage) (N : Nat) : Prop :=
  ∃ s, N ≤ s ∧ (s < 2 ^ 64 ∧ s ∉ published ∨
    s + 1 < 2 ^ 64 ∧ ∃ msg, published[s]? = some msg ∧ msg.type = ascii 'E')

/-- The messages from `N` to before `M`. -/
def listed (published : ExtTreeMap Nat OrderMessage) (N M : Nat) : List (Nat × OrderMessage) :=
  (List.range' N (M - N)).filterMap fun s => published[s]?.map (s, ·)

/-- Messages that are delivered, none of them missing or the end marker. -/
def Delivers (published : ExtTreeMap Nat OrderMessage) (N M : Nat) : Prop :=
  N ≤ M ∧ ∀ s, N ≤ s → s < M → ∃ msg, published[s]? = some msg ∧ msg.type ≠ ascii 'E'

theorem received_append : Received (history ++ events) s ↔ Received history s ∨
    Received events s := by
  simp only [Received, List.mem_append, exists_or]
  tauto

/-- A bucket that started at `N` and has delivered up to `M`. -/
structure Reached (published : ExtTreeMap Nat OrderMessage) (N M : Nat) (history : List BucketEvent)
    (bucket : Bucket) : Prop where
  synced : bucket.synced = true
  gone : ∀ s, s ∉ bucket.gone
  delivers : Delivers published N M
  handed : delivered history = listed published N M
  next : bucket.done = false ∧ bucket.nextSequence = M ∨ bucket.done = true ∧
    bucket.nextSequence = M + 1 ∧ ∃ msg, published[M]? = some msg ∧ msg.type = ascii 'E'
  parked : ∀ s msg, bucket.parked[s]? = some msg → published[s]? = some msg ∧
    bucket.nextSequence ≤ s
  received : ∀ s, Received history s → s < bucket.nextSequence ∨ s ∈ bucket.parked

/-- The numbers do not run out before the delivery ends. -/
theorem Ends.lt (h : Ends published N) (D : Delivers published N M) (hmsg : M ∈ published) :
    M + 1 < 2 ^ 64 := by
  obtain ⟨K, hfrom, hstop⟩ := h
  have hle : M ≤ K := by
    refine Nat.not_lt.mp fun hlt => ?_
    obtain ⟨msg, hget, htype⟩ := D.2 K hfrom hlt
    rcases hstop with ⟨-, hfree⟩ | ⟨-, msg', hget', htype'⟩
    · exact hfree (ExtTreeMap.mem_of_getElem? hget)
    · cases hget.symm.trans hget'
      exact htype htype'
  rcases hstop with ⟨hlt, hfree⟩ | ⟨hlt, -⟩
  · have hne : M ≠ K := fun heq => hfree (heq ▸ hmsg)
    omega
  · omega

theorem listed_succ (hle : N ≤ M) (hmsg : published[M]? = some msg) :
    listed published N (M + 1) = listed published N M ++ [(M, msg)] := by
  have hcount : M + 1 - N = (M - N) + 1 := by omega
  have hlast : N + 1 * (M - N) = M := by omega
  rw [listed, hcount, List.range'_concat, hlast, List.filterMap_append, listed]
  simp [hmsg]

/-! ## Acts -/

section
variable {act : Act}

theorem delivered_act (h : act ≠ .deliver) : delivered (bucket.act settings act).2 = [] := by
  refine List.filterMap_eq_nil_iff.mpr fun event hmem => ?_
  cases Bucket.emits_of_mem hmem with
  | passed => exact (h rfl).elim
  | _ => rfl

theorem received_act (h : Received (bucket.act settings act).2 s) :
    (∃ msg now, act = .accept s msg now) ∨ ∃ msg, act = .frame s (some msg) := by
  rcases h with h | ⟨msg, h⟩
  · cases Bucket.emits_of_mem h with
    | arrived => exact .inl ⟨_, _, rfl⟩
    | passed houtcome => cases houtcome
  · cases Bucket.emits_of_mem h with
    | frame => exact .inr ⟨msg, rfl⟩
    | passed houtcome => cases houtcome

/-- An act that delivers nothing and at most parks what it receives. -/
theorem Reached.park (R : Reached published N M history bucket) (hact : act ≠ .deliver)
    (h : (bucket.act settings act).1 = bucket') (hsynced : bucket'.synced = bucket.synced)
    (hgone : ∀ s ∈ bucket'.gone, s ∈ bucket.gone)
    (hnext : bucket'.nextSequence = bucket.nextSequence)
    (hdone : bucket'.done = bucket.done)
    (hparked : ∀ s msg, bucket'.parked[s]? = some msg →
      bucket.parked[s]? = some msg ∨ published[s]? = some msg ∧ bucket.nextSequence ≤ s)
    (hkeep : ∀ s ∈ bucket.parked, s ∈ bucket'.parked)
    (hreceived : ∀ s, Received (bucket.act settings act).2 s → s < bucket.nextSequence ∨
      s ∈ bucket'.parked) :
    Reached published N M (history ++ (bucket.act settings act).2) (bucket.act settings act).1 where
  synced := h ▸ hsynced.trans R.synced
  gone s hs := R.gone s (hgone s (h ▸ hs))
  delivers := R.delivers
  handed := by rw [delivered_append, delivered_act hact, List.append_nil, R.handed]
  next := by
    rw [h, hdone, hnext]
    exact R.next
  parked := by
    rw [h, hnext]
    exact fun s msg hs => (hparked s msg hs).elim (R.parked s msg) id
  received := by
    rw [h, hnext]
    exact fun s hs => (received_append.mp hs).elim
      (fun hold => (R.received s hold).imp_right (hkeep s)) (hreceived s)

end

theorem Reached.accept (R : Reached published N M history bucket)
    (hmsg : published[sequence]? = some msg) :
    Reached published N M (history ++ (bucket.act settings (.accept sequence msg now)).2)
      (bucket.act settings (.accept sequence msg now)).1 := by
  have heq : ∀ s, Received (bucket.act settings (.accept sequence msg now)).2 s → s = sequence := by
    intro s hs
    rcases received_act hs with ⟨_, _, heq⟩ | ⟨_, heq⟩ <;> cases heq
    rfl
  by_cases hold : sequence < bucket.nextSequence ∨ sequence ∈ bucket.parked
  · refine R.park nofun ((congrArg Prod.fst (Bucket.accept_eq R.synced)).trans
      (congrArg Prod.fst (if_pos hold))) rfl (fun _ h => h) rfl rfl (fun _ _ h => .inl h)
      (fun _ h => h) ?_
    exact fun s hs => heq s hs ▸ hold
  · have hnew := Nat.not_lt.mp (not_or.mp hold).1
    refine R.park nofun ((congrArg Prod.fst (Bucket.accept_eq R.synced)).trans
      (congrArg Prod.fst (if_neg hold))) rfl (fun _ h => h) rfl rfl (fun s msg' hs => ?_)
      (fun s hs => Bucket.mem_park_parked.mpr (.inr hs)) ?_
    · rw [Bucket.park, ExtTreeMap.getElem?_insert'] at hs
      split at hs
      · next hsame =>
        cases hs
        exact .inr (hsame ▸ ⟨hmsg, hnew⟩)
      · exact .inl hs
    · exact fun s hs => .inr (Bucket.mem_park_parked.mpr (.inl (heq s hs).symm))

theorem Reached.frame (R : Reached published N M history bucket)
    (hmsg : published[sequence]? = some msg) :
    Reached published N M (history ++ (bucket.act settings (.frame sequence (some msg))).2)
      (bucket.act settings (.frame sequence (some msg))).1 := by
  have A := bucket.onFrame_answered sequence (some msg)
  have hdone : (bucket.onFrame sequence (some msg)).1.done = bucket.done := by
    unfold Bucket.onFrame
    dsimp only
    split <;> rfl
  have hparked : ∀ s, s ∈ (bucket.onFrame sequence (some msg)).1.parked ↔
      s ∈ bucket.parked ∨ sequence = s ∧ bucket.nextSequence ≤ s := by
    intro s
    rw [ExtTreeMap.mem_iff_isSome_getElem?, A.parked]
    split
    · next hnew => simp [hnew.1, hnew.2.1]
    · next hnew =>
      rw [← ExtTreeMap.mem_iff_isSome_getElem?]
      refine ⟨.inl, fun h => h.elim id fun h => ?_⟩
      by_contra hfree
      exact hnew ⟨h.1, h.2, hfree⟩
  refine R.park nofun rfl A.synced (fun s hs => ?_) A.next hdone (fun s msg' hs => ?_)
    (fun s hs => (hparked s).mpr (.inl hs)) (fun s hs => ?_)
  · exact ((A.gone s).mp hs).elim id fun h => nomatch h.2.2
  · have hs : (bucket.onFrame sequence (some msg)).1.parked[s]? = some msg' := hs
    rw [A.parked] at hs
    split at hs
    · next hnew =>
      cases hs
      exact .inr (hnew.1 ▸ ⟨hmsg, hnew.1 ▸ hnew.2.1⟩)
    · exact .inl hs
  · rcases received_act hs with ⟨_, _, heq⟩ | ⟨_, heq⟩ <;> cases heq
    exact (Nat.lt_or_ge sequence bucket.nextSequence).imp_right fun hle =>
      (hparked _).mpr (.inr ⟨rfl, hle⟩)

theorem Reached.expire (R : Reached published N M history bucket)
    (hnone : bucket.expired now settings.giveupNs = []) :
    Reached published N M (history ++ (bucket.act settings (.expire now)).2)
      (bucket.act settings (.expire now)).1 := by
  refine R.park nofun rfl rfl (fun s hs => ?_) rfl rfl (fun _ _ h => .inl h) (fun _ h => h)
    fun s hs => ?_
  · rcases Bucket.mem_expire_gone.mp hs with hs | hs
    · rw [hnone] at hs
      cases hs
    · exact hs
  · rcases received_act hs with ⟨_, _, heq⟩ | ⟨_, heq⟩ <;> cases heq

theorem Reached.request (R : Reached published N M history bucket) :
    Reached published N M (history ++ (bucket.act settings (.request now)).2)
      (bucket.act settings (.request now)).1 := by
  have hsame : (bucket.act settings (.request now)).1.synced = bucket.synced ∧
      (bucket.act settings (.request now)).1.gone = bucket.gone ∧
      (bucket.act settings (.request now)).1.nextSequence = bucket.nextSequence ∧
      (bucket.act settings (.request now)).1.done = bucket.done ∧
      (bucket.act settings (.request now)).1.parked = bucket.parked := by
    rw [Bucket.act]
    split <;> exact ⟨rfl, rfl, rfl, rfl, rfl⟩
  obtain ⟨hsynced, hgone, hnext, hdone, hparked⟩ := hsame
  refine R.park (by simp) rfl hsynced (fun _ h => hgone ▸ h) hnext hdone
    (fun _ _ h => .inl (hparked ▸ h))
    (fun _ h => hparked ▸ h) fun s hs => ?_
  rcases received_act hs with ⟨_, _, heq⟩ | ⟨_, heq⟩ <;> cases heq

/-! ## Delivery -/

theorem not_received_round {event : BucketEvent} (h : bucket.Round event bucket') :
    ¬Received [event] s := by
  rintro (h' | ⟨msg, h'⟩) <;> cases List.mem_singleton.mp h' <;> cases h

theorem Reached.round {event : BucketEvent} (R : Reached published N M history bucket)
    (hends : Ends published N) (h : bucket.Round event bucket') :
    ∃ M', Reached published N M' (history ++ [event]) bucket' := by
  have hnone : ∀ s, ¬Received [event] s := fun s => not_received_round h
  have hopen : ∀ {msg}, bucket.done = false → bucket.parked[bucket.nextSequence]? = some msg →
      bucket.nextSequence = M ∧ published[M]? = some msg ∧
      (bucket.nextSequence + 1) % 2 ^ 64 = M + 1 := by
    intro msg hopen hmsg
    have hM := (R.next.resolve_right fun hclosed => nomatch hopen.symm.trans hclosed.1).2
    rw [hM] at hmsg
    have hget := (R.parked _ _ hmsg).1
    have hlt := hends.lt R.delivers (ExtTreeMap.mem_of_getElem? hget)
    exact ⟨hM, hget, by rw [hM, Nat.mod_eq_of_lt hlt]⟩
  have hparked : ∀ {s msg}, (bucket.parked.erase bucket.nextSequence)[s]? = some msg →
      published[s]? = some msg ∧ bucket.nextSequence + 1 ≤ s := by
    intro s msg hs
    rw [ExtTreeMap.getElem?_erase'] at hs
    split at hs
    · cases hs
    · obtain ⟨hget, hle⟩ := R.parked s msg hs
      exact ⟨hget, by omega⟩
  have hreceived : ∀ s, Received (history ++ [event]) s →
      s < bucket.nextSequence + 1 ∨ s ∈ bucket.parked.erase bucket.nextSequence := by
    intro s hs
    rw [ExtTreeMap.mem_erase']
    rcases R.received s ((received_append.mp hs).resolve_right (hnone s)) with hlt | hmem
    · exact .inl (by omega)
    · by_cases heq : bucket.nextSequence = s
      · exact .inl (by omega)
      · exact .inr ⟨heq, hmem⟩
  cases h with
  | @delivered msg hdone hmsg htype =>
    obtain ⟨hM, hget, hnext⟩ := hopen hdone hmsg
    refine ⟨M + 1, R.synced, R.gone, ⟨R.delivers.1.trans (Nat.le_succ M), fun s hfrom hto => ?_⟩,
      ?_, .inl ⟨hdone, hnext⟩, fun s msg' hs => ?_, fun s hs => ?_⟩
    · rcases Nat.lt_or_eq_of_le (Nat.le_of_lt_succ hto) with hlt | rfl
      · exact R.delivers.2 s hfrom hlt
      · exact ⟨msg, hget, htype⟩
    · rw [delivered_append, R.handed, listed_succ R.delivers.1 hget, hM]
      rfl
    · dsimp only
      rw [hnext, ← hM]
      exact hparked hs
    · dsimp only
      rw [hnext, ← hM]
      exact hreceived s hs
  | @ended msg hdone hmsg htype =>
    obtain ⟨hM, hget, hnext⟩ := hopen hdone hmsg
    refine ⟨M, R.synced, R.gone, R.delivers, ?_, .inr ⟨rfl, hnext, msg, hget, htype⟩,
      fun s msg' hs => ?_, fun s hs => ?_⟩
    · rw [delivered_append, R.handed]
      exact List.append_nil _
    · dsimp only
      rw [hnext, ← hM]
      exact hparked hs
    · dsimp only
      rw [hnext, ← hM]
      exact hreceived s hs
  | unrecoverable _ hgone => exact (R.gone _ hgone).elim

theorem Reached.rounds (R : Reached published N M history bucket) (hends : Ends published N)
    (h : bucket.Rounds events bucket') :
    ∃ M', Reached published N M' (history ++ events) bucket' := by
  induction h generalizing history M with
  | nil =>
    rw [List.append_nil]
    exact ⟨M, R⟩
  | cons hround _ ih =>
    obtain ⟨M', R'⟩ := R.round hends hround
    have := ih R'
    rwa [List.append_assoc] at this

theorem Life.reached {N : UInt64} {id : Nat}
    (L : Life settings (Arriving settings published) start (newBucket N id) clock history bucket)
    (hN : 0 < N) (hends : Ends published N.toNat) :
    ∃ M, Reached published N.toNat M history bucket := by
  induction L with
  | new =>
    rw [newBucket, if_pos hN]
    refine ⟨N.toNat, rfl, fun s hs => ?_,
      ⟨le_rfl, fun s hfrom hto => absurd hto (Nat.not_lt.mpr hfrom)⟩, ?_,
      .inl ⟨rfl, rfl⟩, fun s msg hs => ?_, ?_⟩
    · simp at hs
    · rw [listed, Nat.sub_self]
      rfl
    · simp at hs
    · rintro s (hs | ⟨_, hs⟩) <;> cases hs
  | @act _ _ bucket act _ hallowed ih =>
    obtain ⟨M, R⟩ := ih
    match act, hallowed with
    | .accept _ _ _, hmsg => exact ⟨M, R.accept hmsg⟩
    | .frame _ (some _), hmsg => exact ⟨M, R.frame hmsg⟩
    | .expire _, hnone => exact ⟨M, R.expire hnone⟩
    | .request _, _ => exact ⟨M, R.request⟩
    | .deliver, _ => exact R.rounds hends (Bucket.deliverLoop_rounds _ _)
  | wait _ _ ih => exact ih

/-! ## When everything has arrived -/

/-- The delivery ends at `M`. -/
def EndsAt (published : ExtTreeMap Nat OrderMessage) (M : Nat) : Prop :=
  M ∉ published ∨ ∃ msg, published[M]? = some msg ∧ msg.type = ascii 'E'

/-- Where the delivery ends is a matter of what was published. -/
theorem endsAt_unique {M' : Nat} (D : Delivers published N M) (E : EndsAt published M)
    (D' : Delivers published N M') (E' : EndsAt published M') : M = M' := by
  have hle : ∀ {M M' : Nat}, Delivers published N M → EndsAt published M → Delivers published N M' →
      M' ≤ M := by
    intro M M' D E D'
    refine Nat.not_lt.mp fun hlt => ?_
    obtain ⟨msg, hget, htype⟩ := D'.2 M D.1 hlt
    rcases E with hfree | ⟨msg', hget', htype'⟩
    · exact hfree (ExtTreeMap.mem_of_getElem? hget)
    · cases hget.symm.trans hget'
      exact htype htype'
  exact Nat.le_antisymm (hle D' E' D) (hle D E D')

/-- Nothing of the order is left: the bucket is a matter of what was published. -/
structure Finished (published : ExtTreeMap Nat OrderMessage) (M : Nat)
    (bucket : Bucket) : Prop where
  endsAt : EndsAt published M
  done : bucket.done = true ↔ M ∈ published
  next : bucket.nextSequence = if M ∈ published then M + 1 else M
  parked : ∀ s, bucket.parked[s]? = if bucket.nextSequence ≤ s then published[s]? else none

theorem Reached.finished (R : Reached published N M history bucket)
    (hstopped : bucket.done = true ∨ bucket.nextSequence ∉ bucket.parked ∧
      bucket.nextSequence ∉ bucket.gone)
    (hall : Complete published history) : Finished published M bucket := by
  have hparked : ∀ s, bucket.parked[s]? = if bucket.nextSequence ≤ s then published[s]?
      else none := by
    intro s
    cases hget : bucket.parked[s]? with
    | some msg =>
      obtain ⟨hmsg, hle⟩ := R.parked s msg hget
      rw [if_pos hle, hmsg]
    | none =>
      split
      · next hle =>
        cases hmsg : published[s]? with
        | none => rfl
        | some msg =>
          rcases R.received s (hall s (ExtTreeMap.mem_of_getElem? hmsg)) with hlt | hmem
          · omega
          · rw [ExtTreeMap.mem_iff_isSome_getElem?, hget] at hmem
            cases hmem
      · rfl
  rcases R.next with ⟨hopen, hnext⟩ | ⟨hdone, hnext, msg, hmsg, htype⟩
  · obtain ⟨hfree, -⟩ := hstopped.resolve_left (by simp [hopen])
    have hmissing : M ∉ published := by
      rw [← hnext, ExtTreeMap.mem_iff_isSome_getElem?]
      rw [ExtTreeMap.mem_iff_isSome_getElem?, hparked, if_pos le_rfl] at hfree
      exact hfree
    exact ⟨.inl hmissing, by simp [hopen, hmissing], by rw [if_neg hmissing, hnext], hparked⟩
  · have hmem : M ∈ published := ExtTreeMap.mem_of_getElem? hmsg
    exact ⟨.inr ⟨msg, hmsg, htype⟩, by simp [hdone, hmem], by rw [if_pos hmem, hnext], hparked⟩

theorem Life.finished {N : UInt64} {id : Nat}
    (L : Life settings (Arriving settings published) start (newBucket N id) clock history bucket)
    (hN : 0 < N) (hends : Ends published N.toNat) (hall : Complete published history) :
    ∃ M, Delivers published N.toNat M ∧ delivered (history ++ bucket.deliver.2) =
      listed published N.toNat M ∧
      Finished published M bucket.deliver.1 := by
  obtain ⟨M₀, R₀⟩ := L.reached hN hends
  obtain ⟨M, R⟩ := R₀.rounds hends (Bucket.deliverLoop_rounds _ _)
  exact ⟨M, R.delivers, R.handed, R.finished (Bucket.deliverLoop_stops le_rfl)
    fun s hs => received_append.mpr (.inl (hall s hs))⟩

theorem Finished.unique (F : Finished published M bucket) (F' : Finished published M bucket') :
    bucket.nextSequence = bucket'.nextSequence ∧ bucket.done = bucket'.done ∧
      bucket.parked = bucket'.parked := by
  have hnext : bucket.nextSequence = bucket'.nextSequence := F.next.trans F'.next.symm
  refine ⟨hnext, Bool.eq_iff_iff.mpr (F.done.trans F'.done.symm),
    ExtTreeMap.ext_getElem? fun s => ?_⟩
  rw [F.parked, F'.parked, hnext]

/-- **Arrival order does not matter.** Of two lives in which everything published arrives and
nothing is given up, both hand over the messages from `N` to before the first one missing or the end
marker, and end with the same `nextSequence`, `done` and `parked`. -/
theorem arrival_order_irrelevant {N : UInt64} {id : Nat} {start' clock' : UInt64}
    {history' : List BucketEvent} (hN : 0 < N) (hends : Ends published N.toNat)
    (L : Life settings (Arriving settings published) start (newBucket N id) clock history bucket)
    (L' : Life settings (Arriving settings published) start' (newBucket N id) clock'
      history' bucket')
    (hall : Complete published history) (hall' : Complete published history') :
    (∃ M, Delivers published N.toNat M ∧ EndsAt published M ∧
      delivered (history ++ bucket.deliver.2) = listed published N.toNat M ∧
      delivered (history' ++ bucket'.deliver.2) = listed published N.toNat M) ∧
    bucket.deliver.1.nextSequence = bucket'.deliver.1.nextSequence ∧
    bucket.deliver.1.done = bucket'.deliver.1.done ∧
    bucket.deliver.1.parked = bucket'.deliver.1.parked := by
  obtain ⟨M, D, hdelivered, F⟩ := L.finished hN hends hall
  obtain ⟨M', D', hdelivered', F'⟩ := L'.finished hN hends hall'
  obtain rfl := endsAt_unique D F.endsAt D' F'.endsAt
  exact ⟨⟨M, D, F.endsAt, hdelivered, hdelivered'⟩, F.unique F'⟩

/-- Messages with two numbers. -/
def both (s s' : Nat) : ExtTreeMap Nat OrderMessage :=
  ((∅ : ExtTreeMap Nat OrderMessage).insert s {}).insert s' {}

theorem complete_both {s' : Nat} (h : .arrived s ∈ history) (h' : .arrived s' ∈ history) :
    Complete (both s s') history := by
  intro t ht
  rcases ExtTreeMap.mem_insert'.mp ht with rfl | ht
  · exact .inl h'
  · obtain rfl := (ExtTreeMap.mem_insert'.mp ht).resolve_right ExtTreeMap.not_mem_empty
    exact .inl h

theorem both_first {s s' : Nat} : (both s s')[s]? = some {} := by
  rw [both, ExtTreeMap.getElem?_insert', ExtTreeMap.getElem?_insert']
  split <;> simp

theorem both_second {s s' : Nat} : (both s s')[s']? = some {} := by
  rw [both, ExtTreeMap.getElem?_insert', if_pos rfl]

/-- Message 2 arrives before message 1, or after it was delivered. -/
theorem arrival_order_irrelevant_both :
    let acts := [Act.accept 2 {} 0, .accept 1 {} 0]
    let acts' := [Act.accept 1 {} 0, .deliver, .accept 2 {} 0]
    let early := (newBucket 1 0).acts (init [0] 1 0).settings acts
    let late := (newBucket 1 0).acts (init [0] 1 0).settings acts'
    delivered (early.2 ++ early.1.deliver.2) = delivered (late.2 ++ late.1.deliver.2) ∧
      early.1.deliver.1.nextSequence = late.1.deliver.1.nextSequence := by
  intro acts acts' early late
  have L : Life (init [0] 1 0).settings (Arriving (init [0] 1 0).settings (both 1 2)) 0
      (newBucket 1 0) 0
      early.2 early.1 := (Life.new.act (.accept 2 {} 0) both_second).act (.accept 1 {} 0) both_first
  have L' : Life (init [0] 1 0).settings (Arriving (init [0] 1 0).settings (both 1 2)) 0
      (newBucket 1 0) 0
      late.2 late.1 :=
    ((Life.new.act (.accept 1 {} 0) both_first).act .deliver trivial).act
      (.accept 2 {} 0) both_second
  have hends : Ends (both 1 2) 1 := ⟨3, by decide, .inl ⟨by decide, fun h => by
    rcases ExtTreeMap.mem_insert'.mp h with h | h
    · cases h
    · exact nomatch (ExtTreeMap.mem_insert'.mp h).resolve_right ExtTreeMap.not_mem_empty⟩⟩
  obtain ⟨⟨M, -, -, hdelivered, hdelivered'⟩, hnext, -⟩ := arrival_order_irrelevant
    (by decide) hends L L'
    (complete_both (by decide) (by decide)) (complete_both (by decide) (by decide))
  exact ⟨hdelivered.trans hdelivered'.symm, hnext⟩

/-- Where the numbers run out `nextSequence` wraps, and what was late is early again. -/
theorem arrival_order_wraps :
    ¬∀ (settings : Settings) (published : ExtTreeMap Nat OrderMessage) (N : UInt64) (id : Nat)
      (start clock start' clock' : UInt64) (history history' : List BucketEvent)
        (bucket bucket' : Bucket),
      0 < N → Life settings (Arriving settings published) start (newBucket N id) clock
        history bucket →
      Life settings (Arriving settings published) start' (newBucket N id) clock' history' bucket' →
      Complete published history → Complete published history' →
      bucket.deliver.1.parked = bucket'.deliver.1.parked := by
  intro hall
  have L :
      Life (init [0] 1 0).settings (Arriving (init [0] 1 0).settings (both 5 18446744073709551615))
        0
      (newBucket 18446744073709551615 0) 0 _ _ :=
    ((Life.new.act (.accept 5 {} 0) both_first).act (.accept 18446744073709551615 {} 0) both_second)
  have L' :
      Life (init [0] 1 0).settings (Arriving (init [0] 1 0).settings (both 5 18446744073709551615))
        0
      (newBucket 18446744073709551615 0) 0 _ _ :=
    ((Life.new.act (.accept 18446744073709551615 {} 0) both_second).act .deliver trivial).act
      (.accept 5 {} 0) both_first
  have hparked := hall _ _ 18446744073709551615 0 _ _ _ _ _ _ _ _ (by decide) L L'
    (complete_both (by decide) (by decide)) (complete_both (by decide) (by decide))
  have hsizes := congrArg ExtTreeMap.size hparked
  revert hsizes
  decide

end Subscriber
end MegaFeed
