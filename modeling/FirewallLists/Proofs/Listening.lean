import FirewallLists.Proofs.Service.Untold

/-
  Listeners and the last version. Of the channel it is assumed only that it delivers in order,
  that it says that nothing is left only when this is so, and that it drops no signal among the
  last ones (`Channel.Delivers`); the channel of the services does this
  (`Listener.delivers_receive`). What a listener has got until then is a part of what has been
  sent, nothing is missing beside what was reported lost, and when nothing is left it has the last
  signal (`Channel.Follows`). Signals in turn tell of every version but those that have been taken
  untold (`Reachable.announced`). So a listener that has received all knows the last version,
  however far it was behind (`listeners_keep_up`), unless a call has failed to delete several
  items (`listener_left_behind`).
-/

namespace FirewallLists

open Relation

/-! ## Receiving -/

/-- What somebody at a position may get from the channel, and the position afterwards. -/
inductive Channel.Delivers (c : Channel) (p : Nat) : Receipt → Nat → Prop where
  | signal {change : Change} (next : c.sent[p]? = some change) :
      Delivers c p (.signal change) (p + 1)
  | empty (nothing : c.count ≤ p) : Delivers c p .empty p
  | lagged {missed : Nat} (some : 0 < missed) (dropped : p + missed + capacity ≤ c.count) :
      Delivers c p (.lagged missed) (p + missed)

/-- Listeners are told what they may be told. -/
theorem Listener.delivers_receive (l : Listener) (c : Channel) :
    c.Delivers l.position (l.receive c).1 (l.receive c).2.position := by
  unfold Listener.receive
  split
  · next hbehind =>
    have hposition : c.count - Channel.capacity =
        l.position + (c.count - Channel.capacity - l.position) := by omega
    dsimp only
    rw [hposition, Nat.add_sub_cancel_left]
    exact .lagged (by omega) (by omega)
  · cases hnext : c.sent[l.position]? with
    | some change => exact .signal hnext
    | none => exact .empty (List.getElem?_eq_none_iff.mp hnext)

/-- The signal that was received. -/
def Receipt.change? : Receipt → Option Change
  | .signal change => some change
  | .empty | .lagged _ => none

/-- How many signals were reported lost. -/
def Receipt.missed : Receipt → Nat
  | .lagged missed => missed
  | .empty | .signal _ => 0

/-- The signals received, the oldest first. -/
def heard (receipts : List Receipt) : List Change :=
  receipts.filterMap (·.change?)

/-- How many signals have been reported lost. -/
def lost (receipts : List Receipt) : Nat :=
  receipts.foldr (fun receipt n => receipt.missed + n) 0

section

variable {c c' : Channel} {p q start : Nat} {receipt : Receipt} {receipts : List Receipt}

theorem heard_cons (receipt : Receipt) (receipts : List Receipt) :
    heard (receipt :: receipts) = receipt.change?.toList ++ heard receipts := by
  cases receipt <;> rfl

theorem lost_cons (receipt : Receipt) (receipts : List Receipt) :
    lost (receipt :: receipts) = receipt.missed + lost receipts :=
  rfl

theorem heard_concat (receipts : List Receipt) (receipt : Receipt) :
    heard (receipts ++ [receipt]) = heard receipts ++ receipt.change?.toList := by
  rw [heard, List.filterMap_append]
  cases receipt <;> rfl

theorem lost_concat (receipts : List Receipt) (receipt : Receipt) :
    lost (receipts ++ [receipt]) = lost receipts + receipt.missed := by
  induction receipts with
  | nil => exact Nat.add_comm _ _
  | cons first receipts ih => rw [List.cons_append, lost_cons, lost_cons, ih, Nat.add_assoc]

theorem getLast?_cons_or {α : Type} (x : α) (xs : List α) (last : Option α) :
    (x :: xs).getLast?.or last = xs.getLast?.or (some x) := by
  rw [List.getLast?_cons]
  cases xs.getLast? <;> rfl

/-- What is noted of receipts: how many signals, how many lost, the first one and the last one. -/
theorem Listener.Drained.foldl_add (d : Drained) (receipts : List Receipt) :
    receipts.foldl add d = ⟨d.count + (heard receipts).length, d.lagged + lost receipts,
      d.first.or (heard receipts).head?, (heard receipts).getLast?.or d.last⟩ := by
  induction receipts generalizing d with
  | nil => simp [heard, lost]
  | cons receipt receipts ih =>
    rw [List.foldl_cons, ih, heard_cons, lost_cons]
    cases receipt with
    | signal change =>
      simp [add, Receipt.change?, Receipt.missed, getLast?_cons_or]
      omega
    | empty => simp [add, Receipt.change?, Receipt.missed]
    | lagged missed => simp [add, Receipt.change?, Receipt.missed, Nat.add_assoc]

theorem Channel.Delivers.lt (h : c.Delivers p receipt q) (hsome : receipt ≠ .empty) : p < q := by
  cases h with
  | signal next => exact Nat.lt_succ_self p
  | empty => exact absurd rfl hsome
  | lagged some _ => exact Nat.lt_add_of_pos_right some

theorem Listener.drainWithin_succ {bound : Nat} {l l' : Listener} {c : Channel} {d : Drained}
    {receipt : Receipt} (hreceive : l.receive c = (receipt, l')) (hsome : receipt ≠ .empty) :
    drainWithin (bound + 1) l c d = drainWithin bound l' c (d.add receipt) := by
  rw [drainWithin, hreceive]
  cases receipt with
  | empty => exact absurd rfl hsome
  | signal | lagged => rfl

/-- Somebody who has listened from `start` on has got these receipts and is at this position. -/
structure Channel.Follows (c : Channel) (start : Nat) (receipts : List Receipt) (p : Nat) :
    Prop where
  le_count : p ≤ c.count
  counted : start + (heard receipts).length + lost receipts = p
  received : (heard receipts).Sublist ((c.sent.take p).drop start)
  last : start < p → p + capacity ≤ c.count ∨ (heard receipts).getLast? = c.sent[p - 1]?

namespace Channel

theorem follows_count (c : Channel) : c.Follows c.count [] c.count :=
  ⟨Nat.le_refl _, rfl, List.nil_sublist _, fun h => absurd h (Nat.lt_irrefl _)⟩

theorem Follows.sent (h : c.Follows start receipts p) {more : List Change}
    (hsent : c'.sent = c.sent ++ more) : c'.Follows start receipts p := by
  have hcount : c'.count = c.count + more.length := by rw [count, hsent, List.length_append, count]
  have hle := h.le_count
  refine ⟨by omega, h.counted, ?_, fun hlt => ?_⟩
  · rw [hsent, List.take_append_of_le_length hle]
    exact h.received
  · have hkept : p - 1 < c.sent.length := by
      rw [count] at hle
      omega
    rw [hsent, List.getElem?_append_left hkept]
    exact (h.last hlt).imp_left fun hdropped => by omega

theorem Follows.delivers (h : c.Follows start receipts p) (hdelivers : c.Delivers p receipt q) :
    c.Follows start (receipts ++ [receipt]) q := by
  have hcounted := h.counted
  have hreceived := h.received
  have hstart : start ≤ p := by omega
  cases hdelivers with
  | @signal change next =>
    have hlt : p < c.sent.length := (List.getElem?_eq_some_iff.mp next).1
    have hheard : heard (receipts ++ [.signal change]) = heard receipts ++ [change] :=
      heard_concat _ _
    refine ⟨hlt, ?_, ?_, fun _ => Or.inr ?_⟩
    · rw [hheard, lost_concat, List.length_append]
      show _ + (_ + 1) + (_ + 0) = _
      omega
    · have htaken : start ≤ (c.sent.take p).length := by
        rw [List.length_take]
        omega
      rw [hheard, List.take_add_one, next, List.drop_append_of_le_length htaken]
      exact hreceived.append (List.Sublist.refl _)
    · rw [hheard, List.getLast?_concat, Nat.add_sub_cancel, next]
  | empty _ =>
    have hheard : heard (receipts ++ [.empty]) = heard receipts :=
      (heard_concat _ _).trans (List.append_nil _)
    refine ⟨h.le_count, ?_, ?_, ?_⟩
    · rw [hheard, lost_concat]
      exact hcounted
    · rw [hheard]
      exact hreceived
    · rw [hheard]
      exact h.last
  | @lagged missed _ dropped =>
    have hheard : heard (receipts ++ [.lagged missed]) = heard receipts :=
      (heard_concat _ _).trans (List.append_nil _)
    refine ⟨by omega, ?_, ?_, fun _ => Or.inl dropped⟩
    · rw [hheard, lost_concat]
      show _ + _ + (_ + missed) = _
      omega
    · rw [hheard]
      refine hreceived.trans (List.Sublist.drop ?_ start)
      exact (List.take_prefix_take_left (Nat.le_add_right p missed)).sublist

/-- When nothing is left, what has not been received has been reported lost, and the last signal
has been received. -/
theorem Follows.of_empty (h : c.Follows start receipts p) (hempty : c.Delivers p .empty p) :
    (heard receipts).length + lost receipts = (c.since start).length ∧
      (heard receipts).getLast? = (c.since start).getLast? := by
  have hcounted := h.counted
  have hp : p = c.sent.length := by
    cases hempty with
    | empty nothing => exact Nat.le_antisymm h.le_count nothing
  refine ⟨?_, ?_⟩
  · rw [since, List.length_drop]
    omega
  · by_cases hstart : start < p
    · rcases h.last hstart with hdropped | hlast
      · rw [capacity, count] at hdropped
        omega
      · rw [hlast, since, List.getLast?_drop, if_neg (by omega), List.getLast?_eq_getElem?, hp]
    · have hheard : heard receipts = [] := List.eq_nil_iff_length_eq_zero.mpr (by omega)
      rw [hheard, since, List.drop_eq_nil_of_le (by omega)]

end Channel

end

/-! ## What signals tell of -/

/-- The last version that is known from these signals to somebody who knew this one before. -/
def newest (before : Int) (sent : List Change) : Int :=
  (sent.getLast?.map (·.version)).getD before

theorem newest_append_of_ne_nil {before : Int} {sent more : List Change} (h : more ≠ [])
    (between : Int) : newest before (sent ++ more) = newest between more := by
  rw [newest, newest, List.getLast?_append_of_ne_nil _ h, List.getLast?_eq_some_getLast h]
  rfl

theorem Store.Commits.newest {s s' : Store} {changes : List Change}
    (h : s.Commits changes s') : s'.sequence = newest s.sequence changes := by
  cases hlast : changes.getLast? with
  | none =>
    cases List.getLast?_eq_none_iff.mp hlast
    rw [h.eq_of_nil]
    rfl
  | some last =>
    rw [FirewallLists.newest, hlast]
    exact (h.row_of_last hlast).1.symm

namespace State

variable {st st₁ st' : State} {sent more : List Change} {untold later : Nat}

/-- These signals have been sent. They tell of the versions since then, the last of them at last,
but for those that have been taken untold. -/
structure Announced (st : State) (sent : List Change) (untold : Nat) (st' : State) : Prop where
  channel : st'.channel.sent = st.channel.sent ++ sent
  ascending : sent.Pairwise fun c d => c.version < d.version
  versions : ∀ c ∈ sent, st.store.sequence < c.version ∧ c.version ≤ st'.store.sequence
  sequence : st'.store.sequence = newest st.store.sequence sent + untold

theorem announced_refl (st : State) : st.Announced [] 0 st :=
  ⟨(List.append_nil _).symm, .nil, nofun, (Int.add_zero _).symm⟩

theorem Announced.sequence_le (h : st.Announced sent untold st') :
    st.store.sequence ≤ st'.store.sequence := by
  have hsequence := h.sequence
  rw [newest] at hsequence
  cases hlast : sent.getLast? with
  | none =>
    rw [hlast] at hsequence
    change st'.store.sequence = st.store.sequence + _ at hsequence
    omega
  | some last =>
    have hversion := h.versions last (List.mem_of_getLast? hlast)
    omega

/-- The last signal tells of the last version exactly if none has been taken untold. -/
theorem Announced.last_iff (h : st.Announced sent untold st')
    (hsequence : st'.store.sequence ≠ st.store.sequence) :
    sent.getLast?.map (·.version) = some st'.store.sequence ↔ untold = 0 := by
  have hnewest := h.sequence
  rw [newest] at hnewest
  cases hlast : sent.getLast? with
  | none =>
    rw [hlast] at hnewest
    change st'.store.sequence = st.store.sequence + _ at hnewest
    exact iff_of_false nofun (by omega)
  | some last =>
    rw [hlast] at hnewest
    change st'.store.sequence = last.version + _ at hnewest
    rw [Option.map_some, Option.some_inj]
    omega

/-- What follows a version taken untold tells of nothing more. -/
theorem Announced.append (h : st.Announced sent untold st₁) (h' : st₁.Announced more later st')
    (hsilent : untold ≠ 0 → more = []) : st.Announced (sent ++ more) (untold + later) st' where
  channel := by rw [h'.channel, h.channel, List.append_assoc]
  ascending := by
    refine List.pairwise_append.mpr ⟨h.ascending, h'.ascending, fun c hc d hd => ?_⟩
    exact Int.lt_of_le_of_lt (h.versions c hc).2 (h'.versions d hd).1
  versions := by
    have hle := h.sequence_le
    have hle' := h'.sequence_le
    intro c hc
    rcases List.mem_append.mp hc with hc | hc
    · have hversion := h.versions c hc
      omega
    · have hversion := h'.versions c hc
      omega
  sequence := by
    by_cases hmore : more = []
    · have hsequence := h'.sequence
      have hbefore := h.sequence
      subst hmore
      rw [List.append_nil]
      change _ = st₁.store.sequence + _ at hsequence
      omega
    · have huntold : untold = 0 := by_contra fun hne => hmore (hsilent hne)
      rw [newest_append_of_ne_nil hmore st₁.store.sequence, huntold, Nat.zero_add]
      exact h'.sequence

theorem Happens.announced (h : st.Happens untold st') : ∃ sent, st.Announced sent untold st' := by
  cases h with
  | rests rests =>
    refine ⟨[], by rw [rests.channel, List.append_nil], .nil, nofun, ?_⟩
    rw [rests.quiet.sequence]
    exact (Int.add_zero _).symm
  | @tells _ entries sent posts sublist last =>
    refine ⟨sent, posts.sent, posts.commits.ascending.sublist sublist,
      fun c hc => posts.commits.versions (sublist.subset hc), ?_⟩
    rw [posts.commits.newest, newest, newest, last]
    exact (Int.add_zero _).symm
  | conceals posts _ =>
    refine ⟨[], posts.sent, .nil, nofun, ?_⟩
    rw [posts.commits.sequence, List.length_map]
    rfl

end State

section

variable {st st' : State} {untold : Nat}

/-- No signal is sent in a reachable state once there is no version left. -/
theorem Reachable.nil_of_last (h : Reachable st') (hlast : st.store.sequence = maxInteger)
    {sent : List Change} (hannounced : st.Announced sent untold st') : sent = [] := by
  have hbounded := h.holds Store.invariant_bounded
  refine List.eq_nil_iff_forall_not_mem.mpr fun c hc => ?_
  have hversion := hannounced.versions c hc
  omega

/-- In a run all versions are told of in their order, but for those taken untold. -/
theorem Reachable.announced (h : Reachable st) (hruns : st.Runs untold st') :
    ∃ sent, st.Announced sent untold st' := by
  induction hruns with
  | refl => exact ⟨[], st.announced_refl⟩
  | @tail untold st₁ hruns event ih =>
    obtain ⟨sent, hsent⟩ := ih
    obtain ⟨more, hmore⟩ := (event.happens st₁).announced
    refine ⟨sent ++ more, hsent.append hmore fun huntold => ?_⟩
    have hreach := h.run (hruns.tail event).run
    exact hreach.nil_of_last (h.last_of_runs hruns huntold) hmore

end

/-! ## Listening along a run -/

/-- A listener has subscribed in the first state. Since then events have happened in between its
receipts, and so many versions have been taken untold; now it is at this position. -/
inductive State.Hears (st : State) : List Receipt → Nat → State → Nat → Prop where
  | subscribe : Hears st [] 0 st st.channel.count
  | event {receipts : List Receipt} {untold : Nat} {st₁ : State} {p : Nat}
      (h : Hears st receipts untold st₁ p) (event : Event) :
      Hears st receipts (untold + event.untold st₁) (event.apply st₁) p
  | receive {receipts : List Receipt} {untold : Nat} {st₁ : State} {p q : Nat} {receipt : Receipt}
      (h : Hears st receipts untold st₁ p) (delivers : st₁.channel.Delivers p receipt q) :
      Hears st (receipts ++ [receipt]) untold st₁ q

section

variable {st st' : State} {receipts : List Receipt} {untold p : Nat}

theorem State.Hears.runs (h : st.Hears receipts untold st' p) : st.Runs untold st' := by
  induction h with
  | subscribe => exact .refl
  | event _ event ih => exact ih.tail event
  | receive _ _ ih => exact ih

theorem State.Hears.run {st₁ : State} {later : Nat} (h : st.Hears receipts untold st₁ p)
    (hruns : st₁.Runs later st') : st.Hears receipts (untold + later) st' p := by
  induction hruns with
  | refl => exact h
  | tail _ event ih => exact Nat.add_assoc _ _ _ ▸ ih.event event

theorem State.Hears.follows (h : st.Hears receipts untold st' p) :
    st'.channel.Follows st.channel.count receipts p := by
  induction h with
  | subscribe => exact st.channel.follows_count
  | @event receipts untold st₁ p h event ih =>
    obtain ⟨more, hmore⟩ := (event.happens st₁).announced
    exact ih.sent hmore.channel
  | receive _ delivers ih => exact ih.delivers delivers

/-- Whoever goes on receiving comes to the end. -/
theorem State.Hears.drainWithin {bound : Nat} (h : st.Hears receipts untold st' p)
    (hbound : st'.channel.count < p + bound) (d : Listener.Drained) :
    ∃ more q, st.Hears (receipts ++ more) untold st' q ∧ st'.channel.Delivers q .empty q ∧
      Listener.drainWithin bound ⟨p⟩ st'.channel d =
        (more.foldl Listener.Drained.add d, ⟨q⟩) := by
  induction bound generalizing receipts p d with
  | zero =>
    have hle := h.follows.le_count
    omega
  | succ bound ih =>
    rcases hreceive : Listener.receive ⟨p⟩ st'.channel with ⟨receipt, ⟨q⟩⟩
    have hdelivers : st'.channel.Delivers p receipt q := by
      have hdelivers := Listener.delivers_receive ⟨p⟩ st'.channel
      rwa [hreceive] at hdelivers
    by_cases hempty : receipt = .empty
    · subst hempty
      obtain rfl : q = p := by cases hdelivers; rfl
      refine ⟨[], q, (List.append_nil receipts).symm ▸ h, hdelivers, ?_⟩
      rw [Listener.drainWithin, hreceive]
      rfl
    · have hlt := hdelivers.lt hempty
      obtain ⟨more, last, hmore, hlast, hdrain⟩ :=
        ih (h.receive hdelivers) (by omega) (d.add receipt)
      rw [List.append_assoc] at hmore
      exact ⟨receipt :: more, last, hmore, hlast,
        (Listener.drainWithin_succ hreceive hempty).trans hdrain⟩

/-- Receiving until nothing is left tells how many signals have been received, how many are lost,
and which ones came first and last. -/
theorem State.Hears.drain (h : st.Hears receipts untold st' p) :
    ∃ more q, st.Hears (receipts ++ more) untold st' q ∧ st'.channel.Delivers q .empty q ∧
      Listener.drain ⟨p⟩ st'.channel = (⟨(heard more).length, lost more, (heard more).head?,
        (heard more).getLast?⟩, ⟨q⟩) := by
  have hbound : st'.channel.count < p + (st'.channel.count + 2) := by omega
  obtain ⟨more, q, hmore, hempty, hdrain⟩ := h.drainWithin hbound {}
  refine ⟨more, q, hmore, hempty, hdrain.trans ?_⟩
  rw [Listener.Drained.foldl_add]
  simp

/-- Whoever listens from a reachable state on, and whatever happens in between the receipts: the
versions that are received ascend, and no signal is received twice or out of order. Once nothing is
left, what has been received and what has been reported lost are as many signals as were sent since
then; and if the sequence has moved on, then the last version received is the last one of all,
unless a call that failed to delete several items has taken versions untold. After that there is no
version left. -/
theorem listeners_keep_up (h : Reachable st) (hears : st.Hears receipts untold st' p) :
    ((heard receipts).Pairwise fun c d => c.version < d.version) ∧
      (heard receipts).Sublist (st'.channel.since st.channel.count) ∧
      (untold ≠ 0 → st'.store.sequence = maxInteger) ∧
      (st'.channel.Delivers p .empty p →
        (heard receipts).length + lost receipts = (st'.channel.since st.channel.count).length ∧
        (st'.store.sequence ≠ st.store.sequence →
          ((heard receipts).getLast?.map (·.version) = some st'.store.sequence ↔ untold = 0))) := by
  have hruns := hears.runs
  have hfollows := hears.follows
  obtain ⟨sent, hsent⟩ := h.announced hruns
  have hsince : st'.channel.since st.channel.count = sent := by
    rw [Channel.since, hsent.channel]
    exact List.drop_left
  have hsublist : (heard receipts).Sublist (st'.channel.since st.channel.count) :=
    hfollows.received.trans ((List.take_sublist _ _).drop _)
  refine ⟨hsent.ascending.sublist (hsince ▸ hsublist), hsublist, h.last_of_runs hruns,
    fun hempty => ?_⟩
  obtain ⟨hcounted, hlast⟩ := hfollows.of_empty hempty
  refine ⟨hcounted, fun hsequence => ?_⟩
  rw [hlast, hsince]
  exact hsent.last_iff hsequence

end

/-- Nobody has listened while an item was revised often. The first signal is lost, but not the last
version. -/
theorem listeners_keep_up_after_lag :
    let calls := .createList publicBlackList :: .createItem { listId := 1, value := "::" } ::
      List.replicate 256 (.updateItem 1 { value := "::" })
    let st := State.after { now := 0 } (adminCalls calls)
    ∃ more p, State.Hears { now := 0 } (.lagged 1 :: more) 0 st p ∧
      (heard more).length + lost (.lagged 1 :: more) = 257 ∧
      (heard more).Pairwise (fun c d => c.version < d.version) ∧
      (heard more).getLast?.map (·.version) = some 257 := by
  intro calls st
  obtain ⟨hversion, hcount⟩ : st.store.sequence = 257 ∧ st.channel.count = 257 := by
    decide +kernel
  have hruns : State.Runs { now := 0 } 0 st := by
    refine State.Runs.calls .refl _ _ ?_
    refine List.forall_mem_cons.mpr ⟨fun _ => rfl, List.forall_mem_cons.mpr ⟨fun _ => rfl, ?_⟩⟩
    intro call hcall r
    rw [List.eq_of_mem_replicate hcall]
    rfl
  have hlagged : st.channel.Delivers 0 (.lagged 1) 1 :=
    .lagged Nat.one_pos (Nat.le_of_eq hcount.symm)
  have hears : State.Hears { now := 0 } [] 0 st 0 := State.Hears.run .subscribe hruns
  obtain ⟨more, p, hall, hempty, -⟩ := (hears.receive hlagged).drain
  obtain ⟨hascending, -, -, hknown⟩ := listeners_keep_up ⟨0, .refl⟩ hall
  obtain ⟨hnumber, hlast⟩ := hknown hempty
  have hsince : st.channel.since 0 = st.channel.sent := List.drop_zero
  change _ = (st.channel.since 0).length at hnumber
  rw [hsince] at hnumber
  exact ⟨more, p, hall, hnumber.trans hcount, hascending,
    hversion ▸ (hlast (by rw [hversion]; decide)).mpr rfl⟩

/-- A call to delete two items fails in the middle. A listener then hears that there is nothing for
it, although a version has been taken. -/
theorem listener_left_behind : ∃ st st' untold p, Reachable st ∧
    State.Hears st [.empty] untold st' p ∧ st'.store.sequence = st.store.sequence + 1 ∧
    heard [.empty] = [] := by
  obtain ⟨st, st', hreach, hserve, hsequence⟩ := exists_deleteItems_fails
  obtain ⟨entries, hposts, -⟩ := Gate.posts_deleteItems hserve
  have hsubscribed : State.Hears st [] 0 st st.channel.count := .subscribe
  have hevent := hsubscribed.event (.call adminGate (some "key") (.deleteItems [1, 2]))
  rw [Event.apply, hserve] at hevent
  have hcount : st'.channel.count ≤ st.channel.count :=
    Nat.le_of_eq (congrArg Channel.count hposts.channel_eq)
  exact ⟨st, st', _, _, hreach, hevent.receive (.empty hcount), hsequence, rfl⟩

end FirewallLists
