import Mathlib.Data.List.Infix
import Mathlib.Tactic
import RFObserver.Lib.Runs
import RFObserver.Web.LiveBroadcast

/-! What a client of the live channel gets, over all runs. -/

namespace RFObserver

namespace LiveBroadcast

variable {J T : Type*} {dumps : LiveMessage J → T} {b b' : LiveBroadcast J T} {a : Act J}

/-- How a client of `b'` comes from `b` in one step. -/
inductive Follows (dumps : LiveMessage J → T) (b b' : LiveBroadcast J T) : Subscriber J T → Prop
  | created (wantsPsd : Bool) : Follows dumps b b' (.create wantsPsd)
  | kept {sub : Subscriber J T} : sub ∈ b.subscribers → Follows dumps b b' sub
  | offered {sub : Subscriber J T} {m : LiveMessage J} {address addressRows f : ℕ} : sub ∈ b.subscribers →
      b.offer m sub = some f → b'.objects = (b.publish m address addressRows).objects → Follows dumps b b' (sub.put f)
  | sent {sub : Subscriber J T} {frame : ℕ} {rest : List ℕ} {object : LiveMessage J × ℕ} (now : ℚ) (taken : Bool) :
      sub ∈ b.subscribers → sub.sending = true → sub.queue = frame :: rest → b.objects[frame]? = some object →
      Follows dumps b b' (b.sendTo dumps sub frame object now taken)
  | mode {sub : Subscriber J T} (highRes averaged : Bool) : sub ∈ b.subscribers →
      Follows dumps b b' (sub.setMode highRes averaged)
  | view {sub : Subscriber J T} (visible : Bool) : sub ∈ b.subscribers → Follows dumps b b' (sub.setView visible)
  | stop {sub : Subscriber J T} : sub ∈ b.subscribers → Follows dumps b b' sub.stop
  | leave {sub : Subscriber J T} : sub ∈ b.subscribers → Follows dumps b b' sub.leave

/-- What happens to the texts kept: nothing, or an object is sent. -/
def Encodes (dumps : LiveMessage J → T) (b b' : LiveBroadcast J T) : Prop :=
  b'.encoded = b.encoded ∨ ∃ sub frame object now, b.objects[frame]? = some object ∧
    b'.encoded = (b.encodeFor dumps sub frame object now).2

theorem update_follows {i : ℕ} {can : Subscriber J T → Bool} {change : Subscriber J T → Subscriber J T}
    (changed : ∀ sub ∈ b.subscribers, Follows dumps b b' (change sub)) (goes : b.update i can change = some b') :
    b'.objects = b.objects ∧ b'.encoded = b.encoded ∧ ∀ sub ∈ b'.subscribers, Follows dumps b b' sub := by
  obtain ⟨sub, at_, goes⟩ := Option.bind_eq_some_iff.mp goes
  split at goes
  · cases goes
    refine ⟨rfl, rfl, fun other member => ?_⟩
    rcases List.mem_or_eq_of_mem_set member with old | rfl
    · exact .kept old
    · exact changed sub (List.mem_of_getElem? at_)
  · cases goes

/-- Objects are only added, and each client comes from one of before. -/
theorem step_follows (goes : step dumps b a = some b') :
    (∃ more, b'.objects = b.objects ++ more) ∧ Encodes dumps b b' ∧ ∀ sub ∈ b'.subscribers, Follows dumps b b' sub := by
  have updated : ∀ {i : ℕ} {can : Subscriber J T → Bool} {change : Subscriber J T → Subscriber J T},
      (∀ sub ∈ b.subscribers, Follows dumps b b' (change sub)) → b.update i can change = some b' →
      (∃ more, b'.objects = b.objects ++ more) ∧ Encodes dumps b b' ∧
        ∀ sub ∈ b'.subscribers, Follows dumps b b' sub := by
    intro i can change changed goes
    obtain ⟨objects, encoded, follows⟩ := update_follows changed goes
    exact ⟨⟨[], by rw [objects, List.append_nil]⟩, Or.inl encoded, follows⟩
  cases a with
  | subscribe wantsPsd =>
    cases goes
    refine ⟨⟨[], (List.append_nil _).symm⟩, Or.inl rfl, fun sub member => ?_⟩
    rcases List.mem_append.mp member with old | new
    · exact .kept old
    · obtain rfl := List.mem_singleton.mp new
      exact .created wantsPsd
  | publish m address addressRows =>
    cases goes
    refine ⟨⟨_, List.append_assoc ..⟩, Or.inl rfl, fun sub member => ?_⟩
    obtain ⟨old, was, rfl⟩ := List.mem_map.mp member
    cases offer : b.offer m old with
    | none => exact .kept was
    | some f => exact .offered was offer rfl
  | send i now taken =>
    obtain ⟨sub, at_, goes⟩ := Option.bind_eq_some_iff.mp goes
    obtain ⟨frame, queue, goes⟩ := Option.bind_eq_some_iff.mp goes
    obtain ⟨object, made, goes⟩ := Option.bind_eq_some_iff.mp goes
    obtain ⟨rest, queue⟩ := List.head?_eq_some_iff.mp queue
    split at goes
    · rename_i sending
      cases goes
      refine ⟨⟨[], (List.append_nil _).symm⟩, Or.inr ⟨sub, frame, object, now, made, rfl⟩, fun other member => ?_⟩
      rcases List.mem_or_eq_of_mem_set member with old | rfl
      · exact .kept old
      · exact .sent now taken (List.mem_of_getElem? at_) sending queue made
    · cases goes
  | setMode i highRes averaged => exact updated (fun sub member => .mode highRes averaged member) goes
  | setView i visible => exact updated (fun sub member => .view visible member) goes
  | cancel i => exact updated (fun sub member => .stop member) goes
  | unsubscribe i => exact updated (fun sub member => .leave member) goes

end LiveBroadcast

namespace EncodeCache

variable {J T : Type*} {dumps : LiveMessage J → T} {objects : List (LiveMessage J × ℕ)} {c : EncodeCache T}

/-- Each text kept is that of the frame it is kept under. -/
structure Sound (dumps : LiveMessage J → T) (objects : List (LiveMessage J × ℕ)) (c : EncodeCache T) : Prop where
  size : c.items.entries.length ≤ encodeCacheFrames
  texts : ∀ address e drops t, c.items.get? address = some e → e.texts.get? drops = some t →
    ∃ o, objects[e.frame]? = some o ∧ t = dumps (o.1.without drops)

/-- The entry of a frame is in the cache, which stays small, and holds its texts. -/
theorem Sound.entry (sound : c.Sound dumps objects) (frame address : ℕ) :
    (c.entry frame address).1.frame = frame ∧ (c.entry frame address).2.get? address = some (c.entry frame address).1 ∧
      Sound dumps objects ⟨(c.entry frame address).2⟩ := by
  cases found : (c.items.get? address).filter fun e => e.frame = frame with
  | some e =>
    obtain ⟨here, its⟩ := Option.filter_eq_some_iff.mp found
    have entry : c.entry frame address = (e, c.items) := by
      simp only [EncodeCache.entry, found, Option.isSome_some, if_true, Option.getD_some]
    rw [entry]
    exact ⟨of_decide_eq_true its, here, sound⟩
  | none =>
    have entry : c.entry frame address = (⟨frame, .empty⟩,
        (c.items.modify address ⟨frame, .empty⟩ fun _ => ⟨frame, .empty⟩).keepLast encodeCacheFrames) := by
      simp only [EncodeCache.entry, found, Option.isSome_none, Bool.false_eq_true, if_false]
    rw [entry]
    refine ⟨rfl, ?_, Dict.length_keepLast .., fun k e drops t at_ text => ?_⟩
    · rw [Dict.get?_keepLast_modify sound.size (by decide), Dict.get?_modify, if_pos rfl]
    · have before := Dict.get?_of_keepLast at_
      rw [Dict.get?_modify] at before
      split at before
      · cases before
        cases text
      · exact sound.texts k e drops t before text

/-- What `encode` gives is the frame's text without the keys left out, made now or kept. -/
theorem Sound.encode {frame address : ℕ} {o : LiveMessage J × ℕ} (sound : c.Sound dumps objects)
    (made : objects[frame]? = some o) (drops : Drops) :
    (c.encode frame address drops (dumps (o.1.without drops))).1 = dumps (o.1.without drops) ∧
      Sound dumps objects (c.encode frame address drops (dumps (o.1.without drops))).2 := by
  obtain ⟨its, here, kept⟩ := sound.entry frame address
  have right : ∀ e drops t, e = (c.entry frame address).1 → e.texts.get? drops = some t →
      t = dumps (o.1.without drops) := by
    rintro e drops t rfl text
    obtain ⟨o', made', same⟩ := kept.texts address _ drops t here text
    rw [its, made] at made'
    exact same.trans (congrArg (fun o : LiveMessage J × ℕ => dumps (o.1.without drops)) (Option.some.inj made').symm)
  cases held : (c.entry frame address).1.texts.get? drops with
  | some t =>
    have encode : c.encode frame address drops (dumps (o.1.without drops)) = (t, ⟨(c.entry frame address).2⟩) := by
      simp only [EncodeCache.encode, held, Option.isSome_some, if_true, Option.getD_some]
    rw [encode]
    exact ⟨right _ drops t rfl held, kept⟩
  | none =>
    simp only [EncodeCache.encode, held, Option.isSome_none, Bool.false_eq_true, if_false, true_and]
    refine ⟨?_, fun k e d t at_ text => ?_⟩
    · rw [Dict.length_modify, here]
      exact kept.size
    · rw [Dict.get?_modify] at at_
      split at at_
      · cases at_
        refine ⟨o, made, ?_⟩
        rw [Dict.get?_modify] at text
        split at text
        · rename_i same
          cases text
          rw [same]
        · exact right _ d t rfl text
      · exact kept.texts k e d t at_ text

theorem Sound.grows (sound : c.Sound dumps objects) (more : List (LiveMessage J × ℕ)) :
    c.Sound dumps (objects ++ more) := by
  refine ⟨sound.size, fun k e drops t at_ text => ?_⟩
  obtain ⟨o, made, same⟩ := sound.texts k e drops t at_ text
  exact ⟨o, List.getElem?_append_left (List.getElem?_eq_some_iff.mp made).1 ▸ made, same⟩

end EncodeCache

namespace LiveBroadcast

variable {J T : Type*} {dumps : LiveMessage J → T} {b b' : LiveBroadcast J T}

/-- What a reachable state's clients keep, where the texts kept have `C` and each
client has `P`, is shown for one step. -/
theorem reach_all {C : LiveBroadcast J T → Prop} {P : LiveBroadcast J T → Subscriber J T → Prop} (first : C create)
    (encodes : ∀ b b' : LiveBroadcast J T, (∃ more, b'.objects = b.objects ++ more) → Encodes dumps b b' → C b → C b')
    (follows : ∀ (b b' : LiveBroadcast J T) sub, (∃ more, b'.objects = b.objects ++ more) → C b →
      (∀ sub ∈ b.subscribers, P b sub) → Follows dumps b b' sub → P b' sub)
    (reach : Runs.Reach (step dumps) create (fun _ _ => True) b) : C b ∧ ∀ sub ∈ b.subscribers, P b sub := by
  refine Runs.Reach.invariant (I := fun b => C b ∧ ∀ sub ∈ b.subscribers, P b sub)
    ⟨first, List.forall_mem_nil _⟩ ?_ reach
  rintro b a b' ⟨kept, holds⟩ - goes
  obtain ⟨grows, encoded, each⟩ := step_follows goes
  exact ⟨encodes b b' grows encoded kept, fun sub member => follows b b' sub grows kept holds (each sub member)⟩

/-- A client's mail: what it was offered, what found room, what it got and what waits. -/
structure Mail (b : LiveBroadcast J T) (sub : Subscriber J T) : Prop where
  bounded : sub.queue.length ≤ queueMax
  counted : sub.received.length = sub.sent
  offers : sub.offered.length = sub.accepted.length + sub.dropped
  among : sub.accepted.Sublist sub.offered
  inOrder : sub.offered.Pairwise (· < ·)
  made : ∀ f ∈ sub.offered, f < b.objects.length
  front : sub.received.map SentText.frame <+: sub.accepted
  waiting : sub.sending = true → sub.received.map SentText.frame ++ sub.queue = sub.accepted
  lowRes : sub.everHighRes = false → sub.highRes = false ∧ ∀ f ∈ sub.offered, ∀ o ∈ b.objects[f]?,
    o.1.gridRows.isSome = false ∧ (o.1.isPsd = true → o.1.mode ≠ some "high_res")
  hidden : sub.everVisible = false → sub.wantsPsd = false ∧ ∀ f ∈ sub.offered, ∀ o ∈ b.objects[f]?, o.1.isPsd = false

/-- The objects a client was offered are as they were. -/
theorem Mail.grows {sub : Subscriber J T} (mail : Mail b sub) (grows : ∃ more, b'.objects = b.objects ++ more) :
    Mail b' sub := by
  obtain ⟨more, grown⟩ := grows
  have same : ∀ f ∈ sub.offered, b'.objects[f]? = b.objects[f]? := fun f member => by
    rw [grown, List.getElem?_append_left (mail.made f member)]
  refine { mail with made := fun f member => ?_, lowRes := fun never => ?_, hidden := fun never => ?_ }
  · rw [grown, List.length_append]
    exact Nat.lt_add_right _ (mail.made f member)
  · exact ⟨(mail.lowRes never).1, fun f member o at_ => (mail.lowRes never).2 f member o (same f member ▸ at_)⟩
  · exact ⟨(mail.hidden never).1, fun f member o at_ => (mail.hidden never).2 f member o (same f member ▸ at_)⟩

/-- What a client is offered is the last object made, of its mode. -/
theorem offer_spec {sub : Subscriber J T} {m : LiveMessage J} {address addressRows f : ℕ}
    (offer : b.offer m sub = some f) (objects : b'.objects = (b.publish m address addressRows).objects) :
    b.objects.length ≤ f ∧ f < b'.objects.length ∧ ∀ o ∈ b'.objects[f]?, o.1.isPsd = m.isPsd ∧ o.1.mode = m.mode ∧
      (m.isPsd = true → sub.wants m.mode = true) ∧ (sub.highRes = false → o.1.gridRows.isSome = false) := by
  have kind : m.shared.isPsd = m.isPsd ∧ m.shared.mode = m.mode ∧ m.shared.gridRows.isSome = false := by
    unfold LiveMessage.shared
    split <;> exact ⟨rfl, rfl, rfl⟩
  have grown : b'.objects = b.objects ++ ([(m.shared, address)] ++
      if m.gridRows.isSome then [(m.shared.withRows m.gridRows, addressRows)] else []) :=
    objects.trans (List.append_assoc ..)
  unfold LiveBroadcast.offer at offer
  split at offer
  · rename_i open_
    split at offer
    · rename_i rows
      cases offer
      have last : b'.objects[b.objects.length + 1]? = some (m.shared.withRows m.gridRows, addressRows) := by
        rw [grown, if_pos rows.2, List.getElem?_append_right (Nat.le_add_right _ 1), Nat.add_sub_cancel_left]
        rfl
      refine ⟨Nat.le_succ _, (List.getElem?_eq_some_iff.mp last).1, fun o at_ => ?_⟩
      obtain rfl := Option.some.inj (last.symm.trans at_)
      exact ⟨kind.1, kind.2.1, open_.2, fun low => absurd rows.1 (by rw [low]; exact Bool.false_ne_true)⟩
    · cases offer
      have last : b'.objects[b.objects.length]? = some (m.shared, address) := by
        rw [grown, List.getElem?_append_right le_rfl, Nat.sub_self]
        rfl
      refine ⟨le_rfl, (List.getElem?_eq_some_iff.mp last).1, fun o at_ => ?_⟩
      obtain rfl := Option.some.inj (last.symm.trans at_)
      exact ⟨kind.1, kind.2.1, open_.2, fun _ => kind.2.2⟩
  · cases offer

/-- A client's books but for what it holds and was sent. -/
theorem note_books (sub : Subscriber J T) (m : LiveMessage J) (now : ℚ) :
    ∃ freqSig nfBins nfSentAt, (sub.clientDrops m now).2 =
      { sub with freqSig := freqSig, nfBins := nfBins, nfSentAt := nfSentAt } := by
  unfold Subscriber.clientDrops Subscriber.note
  dsimp only
  split_ifs <;> exact ⟨_, _, _, rfl⟩

theorem Mail.put {sub : Subscriber J T} {m : LiveMessage J} {address addressRows f : ℕ} (mail : Mail b sub)
    (offer : b.offer m sub = some f) (objects : b'.objects = (b.publish m address addressRows).objects) :
    Mail b' (sub.put f) := by
  obtain ⟨fresh, made, spec⟩ := offer_spec offer objects
  have grown : Mail b' sub := mail.grows ⟨_, objects.trans (List.append_assoc ..)⟩
  have inOrder : (sub.offered ++ [f]).Pairwise (· < ·) := by
    refine List.pairwise_append.mpr ⟨mail.inOrder, List.pairwise_singleton .., fun g before h last => ?_⟩
    rw [List.mem_singleton.mp last]
    exact (mail.made g before).trans_le fresh
  have known : ∀ g ∈ sub.offered ++ [f], g < b'.objects.length := fun g member => by
    rcases List.mem_append.mp member with before | last
    · exact grown.made g before
    · exact List.mem_singleton.mp last ▸ made
  have low : sub.everHighRes = false → sub.highRes = false ∧ ∀ g ∈ sub.offered ++ [f], ∀ o ∈ b'.objects[g]?,
      o.1.gridRows.isSome = false ∧ (o.1.isPsd = true → o.1.mode ≠ some "high_res") := by
    intro never
    obtain ⟨off, before⟩ := grown.lowRes never
    refine ⟨off, fun g member o at_ => ?_⟩
    rcases List.mem_append.mp member with old | last
    · exact before g old o at_
    · obtain rfl := List.mem_singleton.mp last
      obtain ⟨kind, mode, wants, rows⟩ := spec o at_
      refine ⟨rows off, fun psd high => ?_⟩
      have wanted := wants (kind ▸ psd)
      rw [← mode, high, Subscriber.wants, off, if_pos rfl] at wanted
      split at wanted <;> cases wanted
  have hidden : sub.everVisible = false → sub.wantsPsd = false ∧
      ∀ g ∈ sub.offered ++ [f], ∀ o ∈ b'.objects[g]?, o.1.isPsd = false := by
    intro never
    obtain ⟨off, before⟩ := grown.hidden never
    refine ⟨off, fun g member o at_ => ?_⟩
    rcases List.mem_append.mp member with old | last
    · exact before g old o at_
    · obtain rfl := List.mem_singleton.mp last
      obtain ⟨kind, -, wants, -⟩ := spec o at_
      refine Bool.eq_false_iff.mpr fun psd => ?_
      have wanted := wants (kind ▸ psd)
      rw [Subscriber.wants, off, if_neg Bool.false_ne_true] at wanted
      cases wanted
  unfold Subscriber.put
  split
  · rename_i room
    exact { mail with
      bounded := by simpa using room
      offers := by simp only [List.length_append, mail.offers]; omega
      among := mail.among.append (List.Sublist.refl _)
      inOrder := inOrder
      made := known
      front := mail.front.trans (List.prefix_append ..)
      waiting := fun sending => by rw [← List.append_assoc, mail.waiting sending]
      lowRes := low
      hidden := hidden }
  · exact { mail with
      offers := by simp only [List.length_append, List.length_singleton, mail.offers]; omega
      among := mail.among.trans (List.sublist_append_left ..)
      inOrder := inOrder
      made := known
      lowRes := low
      hidden := hidden }

theorem Mail.advance {sub : Subscriber J T} {r : SentText J T} {rest : List ℕ} (mail : Mail b sub)
    (sending : sub.sending = true) (queue : sub.queue = r.frame :: rest) (taken : Bool) :
    Mail b (sub.advance r taken) := by
  have bounded : sub.queue.tail.length ≤ queueMax := by
    rw [List.length_tail]
    exact (Nat.sub_le ..).trans mail.bounded
  cases taken with
  | true =>
    have moved : (sub.received ++ [r]).map SentText.frame ++ sub.queue.tail = sub.accepted := by
      rw [← mail.waiting sending, queue]
      simp
    exact { mail with
      bounded := bounded
      counted := by rw [Subscriber.advance, if_pos rfl, List.length_append, mail.counted]; rfl
      front := ⟨sub.queue.tail, moved⟩
      waiting := fun _ => moved }
  | false => exact { mail with bounded := bounded, waiting := fun stopped => nomatch stopped }

theorem Mail.sent {sub : Subscriber J T} {frame : ℕ} {rest : List ℕ} {object : LiveMessage J × ℕ} (mail : Mail b sub)
    (sending : sub.sending = true) (queue : sub.queue = frame :: rest) (now : ℚ) (taken : Bool) :
    Mail b (b.sendTo dumps sub frame object now taken) := by
  obtain ⟨freqSig, nfBins, nfSentAt, books⟩ := note_books sub object.1 now
  have noted : Mail b (sub.clientDrops object.1 now).2 := books ▸ { mail with }
  exact noted.advance (by rw [books]; exact sending) (by rw [books]; exact queue) taken

theorem Mail.carried {sub : Subscriber J T} (grows : ∃ more, b'.objects = b.objects ++ more)
    (mails : ∀ sub ∈ b.subscribers, Mail b sub) (follows : Follows dumps b b' sub) : Mail b' sub := by
  cases follows with
  | created wantsPsd =>
    exact ⟨Nat.zero_le _, rfl, rfl, List.Sublist.refl _, List.Pairwise.nil, List.forall_mem_nil _, List.prefix_refl _,
      fun _ => rfl, fun _ => ⟨rfl, List.forall_mem_nil _⟩, fun never => ⟨never, List.forall_mem_nil _⟩⟩
  | kept member => exact (mails _ member).grows grows
  | offered member offer objects => exact (mails _ member).put offer objects
  | sent now taken member sending queue made => exact ((mails _ member).sent sending queue now taken).grows grows
  | mode highRes averaged member =>
    have mail := (mails _ member).grows grows
    refine { mail with lowRes := fun never => ?_ }
    obtain ⟨before, low⟩ := Bool.or_eq_false_iff.mp never
    exact ⟨low, (mail.lowRes before).2⟩
  | view visible member =>
    have mail := (mails _ member).grows grows
    refine { mail with hidden := fun never => ?_ }
    obtain ⟨before, hidden⟩ := Bool.or_eq_false_iff.mp never
    exact ⟨hidden, (mail.hidden before).2⟩
  | stop member => exact { (mails _ member).grows grows with waiting := fun stopped => nomatch stopped }
  | leave member => exact { (mails _ member).grows grows with }

/-- A page with the whole stream and one for the heartbeat: three frames of one axis. -/
def axisRun : List (Act Unit) :=
  let frame : LiveMessage Unit := ⟨"psd", some "averaged", some [1, 2, 3], some [5, 5, 5], none, none, some (), ()⟩
  [.subscribe true, .subscribe false, .publish frame 0 1, .send 0 0 true, .publish frame 2 3, .send 0 (1 / 2) true,
    .publish frame 0 1, .send 0 2 true, .cancel 1, .unsubscribe 1]

theorem axisRun_follow : ∃ b, Runs.follow (step fun m => m) create axisRun = some b ∧
    b.subscribers.map (fun sub => sub.received.map SentText.frame) = [[0, 2, 4], []] := by
  have final : (Runs.follow (step fun m => m) create axisRun).map
      (fun b => b.subscribers.map fun sub => sub.received.map SentText.frame) = some [[0, 2, 4], []] := by
    with_unfolding_all decide
  obtain ⟨b, goes, received⟩ := Option.map_eq_some_iff.mp final
  exact ⟨b, goes, received⟩

/-- The text for a client is that of the object without what the client has. -/
theorem encodeFor_spec {frame : ℕ} {object : LiveMessage J × ℕ} (sound : b.encoded.Sound dumps b.objects)
    (made : b.objects[frame]? = some object) (sub : Subscriber J T) (now : ℚ) :
    (b.encodeFor dumps sub frame object now).1 = dumps (object.1.without (sub.clientDrops object.1 now).1) ∧
      (b.encodeFor dumps sub frame object now).2.Sound dumps b.objects := by
  unfold encodeFor
  dsimp only
  split
  · exact sound.encode made _
  · rename_i other
    rw [Subscriber.clientDrops, if_neg other]
    exact ⟨rfl, sound⟩

/-- Each text a client got is that of one of the objects, without the keys left out. -/
def Texts (dumps : LiveMessage J → T) (b : LiveBroadcast J T) (sub : Subscriber J T) : Prop :=
  ∀ r ∈ sub.received, (∃ address, b.objects[r.frame]? = some (r.message, address)) ∧
    r.text = dumps (r.message.without r.drops)

theorem Texts.grows {sub : Subscriber J T} (texts : Texts dumps b sub)
    (grows : ∃ more, b'.objects = b.objects ++ more) :
    Texts dumps b' sub := by
  obtain ⟨more, grown⟩ := grows
  intro r member
  obtain ⟨⟨address, made⟩, text⟩ := texts r member
  refine ⟨⟨address, ?_⟩, text⟩
  rw [grown, List.getElem?_append_left (List.getElem?_eq_some_iff.mp made).1]
  exact made

theorem Texts.carried {sub : Subscriber J T} (grows : ∃ more, b'.objects = b.objects ++ more)
    (sound : b.encoded.Sound dumps b.objects) (texts : ∀ sub ∈ b.subscribers, Texts dumps b sub)
    (follows : Follows dumps b b' sub) : Texts dumps b' sub := by
  cases follows with
  | created wantsPsd => exact List.forall_mem_nil _
  | kept member => exact (texts _ member).grows grows
  | @offered sub m address addressRows f member offer objects =>
    have same : (sub.put f).received = sub.received := by
      unfold Subscriber.put
      split <;> rfl
    have before := (texts sub member).grows grows
    rw [Texts, same]
    exact before
  | @sent sub frame rest object now taken member sending queue made =>
    refine Texts.grows ?_ grows
    obtain ⟨freqSig, nfBins, nfSentAt, books⟩ := note_books sub object.1 now
    intro r got
    unfold sendTo at got
    rw [books] at got
    cases taken with
    | false => exact texts sub member r got
    | true =>
      rcases List.mem_append.mp got with old | new
      · exact texts sub member r old
      · obtain rfl := List.mem_singleton.mp new
        exact ⟨⟨object.2, made⟩, (encodeFor_spec sound made sub now).1⟩
  | mode highRes averaged member => exact (texts _ member).grows grows
  | view visible member => exact (texts _ member).grows grows
  | stop member => exact (texts _ member).grows grows
  | leave member => exact (texts _ member).grows grows

/-- In every run the texts kept are few, and each client gets the text of each
object without what it has, whether that text was kept or is made for it. -/
theorem Reach.texts_shared (reach : Runs.Reach (step dumps) create (fun _ _ => True) b) :
    b.encoded.items.entries.length ≤ encodeCacheFrames ∧ ∀ sub ∈ b.subscribers, Texts dumps b sub := by
  have kept := reach_all (C := fun b => b.encoded.Sound dumps b.objects) (P := Texts dumps)
    ⟨Nat.zero_le _, fun _ _ _ _ none => nomatch none⟩ (fun b b' grows encodes sound => ?_)
    (fun b b' sub grows sound texts follows => Texts.carried grows sound texts follows) reach
  · exact ⟨kept.1.size, kept.2⟩
  · obtain ⟨more, grown⟩ := grows
    rw [grown]
    refine EncodeCache.Sound.grows ?_ more
    rcases encodes with same | ⟨sub, frame, object, now, made, same⟩
    · rw [same]
      exact sound
    · rw [same]
      exact (encodeFor_spec sound made sub now).2

theorem Reach.texts_shared_axisRun : ∃ b, Runs.follow (step fun m => m) create axisRun = some b ∧
    b.encoded.items.entries.length ≤ encodeCacheFrames ∧ ∀ sub ∈ b.subscribers, Texts (fun m => m) b sub := by
  obtain ⟨b, goes, -⟩ := axisRun_follow
  exact ⟨b, goes, Reach.texts_shared (.of_follow goes)⟩

/-- What a page holds: the last axis it got, and the last noise floor with the time of its text. -/
structure Page where
  axis : Option (List ℚ)
  floor : Option (List ℚ × ℚ)

/-- A message read by a page. -/
def Page.read (page : Page) (m : LiveMessage J) (at_ : ℚ) : Page :=
  if m.isPsd then
    ⟨if (axisSig m.frequencies).isSome then m.frequencies else page.axis,
      (m.noiseFloor.map fun nf => (nf, at_)).or page.floor⟩
  else page

/-- The page after the texts it got. -/
def shown (received : List (SentText J T)) : Page :=
  received.foldl (fun page r => page.read (r.message.without r.drops) r.at_) ⟨none, none⟩

/-- A page that got a frame holds the frame's own axis, by length and ends, and a
noise floor of as many bins, its own or one it got within the last second. -/
def Completes (page : Page) (r : SentText J T) : Prop :=
  r.message.isPsd = true →
    ((axisSig r.message.frequencies).isSome → axisSig page.axis = axisSig r.message.frequencies) ∧
      ∀ nf ∈ r.message.noiseFloor, ∃ held at_, page.floor = some (held, at_) ∧ held.length = nf.length ∧
        (held = nf ∧ at_ = r.at_ ∨ r.at_ - at_ < noiseFloorResendSec)

theorem note_freqSig (sub : Subscriber J T) (m : LiveMessage J) (now : ℚ) : (sub.note m now).freqSig =
    if (axisSig m.frequencies).isSome ∧ (sub.has m now).frequencies = false then axisSig m.frequencies
    else sub.freqSig := by
  unfold Subscriber.note
  dsimp only
  split_ifs <;> rfl

theorem note_floor (sub : Subscriber J T) (m : LiveMessage J) (now : ℚ) :
    ((sub.note m now).nfBins, (sub.note m now).nfSentAt) =
      if m.noiseFloor.isSome ∧ (sub.has m now).noiseFloor = false then (((m.noiseFloor.getD []).length : ℤ), now)
      else (sub.nfBins, sub.nfSentAt) := by
  unfold Subscriber.note
  dsimp only
  split_ifs <;> rfl

/-- Without the axis the client has, a frame leaves it that axis; with it, its own. -/
theorem read_axis {sub : Subscriber J T} {page : Page} (same : sub.freqSig = axisSig page.axis) (m : LiveMessage J)
    (now : ℚ) (psd : m.isPsd = true) :
    (sub.note m now).freqSig = axisSig (page.read (m.without (sub.has m now)) now).axis ∧
      ((axisSig m.frequencies).isSome →
        axisSig (page.read (m.without (sub.has m now)) now).axis = axisSig m.frequencies) := by
  have kind : (m.without (sub.has m now)).isPsd = true := psd
  rw [note_freqSig, Page.read, if_pos kind]
  dsimp only
  cases sig : axisSig m.frequencies with
  | none =>
    have kept : (m.without (sub.has m now)).frequencies = m.frequencies := by
      simp [LiveMessage.without, Subscriber.has, sig]
    rw [kept, sig]
    exact ⟨same, nofun⟩
  | some axis =>
    by_cases held : some axis = sub.freqSig
    · have left : (sub.has m now).frequencies = true := by simp [Subscriber.has, sig, ← held]
      have gone : (m.without (sub.has m now)).frequencies = none := if_pos left
      rw [gone, left]
      exact ⟨same, fun _ => same.symm.trans held.symm⟩
    · have given : (sub.has m now).frequencies = false := by simp [Subscriber.has, sig, held]
      have kept : (m.without (sub.has m now)).frequencies = m.frequencies :=
        if_neg (by rw [given]; exact Bool.false_ne_true)
      rw [kept, given, sig, if_pos ⟨rfl, rfl⟩, if_pos (Option.isSome_some ..), sig]
      exact ⟨rfl, fun _ => rfl⟩

/-- The sensor's note of the noise floor a client holds. -/
def FloorNoted (sub : Subscriber J T) (page : Page) : Prop :=
  (page.floor = none ∧ sub.nfBins = -1) ∨
    ∃ held, page.floor = some (held, sub.nfSentAt) ∧ (held.length : ℤ) = sub.nfBins

theorem read_floor {sub : Subscriber J T} {page : Page} (same : FloorNoted sub page) (m : LiveMessage J) (now : ℚ)
    (psd : m.isPsd = true) : FloorNoted (sub.note m now) (page.read (m.without (sub.has m now)) now) ∧
      ∀ nf ∈ m.noiseFloor, ∃ held at_, (page.read (m.without (sub.has m now)) now).floor = some (held, at_) ∧
        held.length = nf.length ∧ (held = nf ∧ at_ = now ∨ now - at_ < noiseFloorResendSec) := by
  have kind : (m.without (sub.has m now)).isPsd = true := psd
  have note := note_floor sub m now
  rw [Page.read, if_pos kind]
  cases floor : m.noiseFloor with
  | none =>
    have kept : (m.without (sub.has m now)).noiseFloor = none := by simp [LiveMessage.without, floor]
    rw [floor, if_neg (by simp)] at note
    obtain ⟨bins, at_⟩ := Prod.mk.inj note
    rw [FloorNoted, bins, at_, kept]
    exact ⟨same, nofun⟩
  | some nf =>
    by_cases fresh : (nf.length : ℤ) = sub.nfBins ∧ now - sub.nfSentAt < noiseFloorResendSec
    · have left : (sub.has m now).noiseFloor = true := by
        simp only [Subscriber.has, floor, Option.any_some]
        exact decide_eq_true fresh
      have gone : (m.without (sub.has m now)).noiseFloor = none := if_pos left
      rw [left, if_neg (by simp)] at note
      obtain ⟨bins, at_⟩ := Prod.mk.inj note
      rw [FloorNoted, bins, at_, gone]
      refine ⟨same, fun other is => ?_⟩
      obtain rfl := Option.some.inj is
      rcases same with ⟨-, none⟩ | ⟨held, shown, length⟩
      · exact absurd (fresh.1.trans none) (by omega)
      · exact ⟨held, sub.nfSentAt, shown, by omega, Or.inr fresh.2⟩
    · have given : (sub.has m now).noiseFloor = false := by
        simp only [Subscriber.has, floor, Option.any_some]
        exact decide_eq_false fresh
      have kept : (m.without (sub.has m now)).noiseFloor = some nf :=
        (if_neg (by rw [given]; exact Bool.false_ne_true)).trans floor
      rw [given, floor, if_pos ⟨rfl, rfl⟩] at note
      obtain ⟨bins, at_⟩ := Prod.mk.inj note
      rw [FloorNoted, bins, at_, kept]
      refine ⟨Or.inr ⟨nf, rfl, rfl⟩, fun other is => ?_⟩
      obtain rfl := Option.some.inj is
      exact ⟨nf, now, rfl, rfl, Or.inl ⟨rfl, rfl⟩⟩

/-- What the sensor notes of a client is what its page holds, while it sends; and
each frame was complete when the page got it. -/
structure View (sub : Subscriber J T) : Prop where
  axis : sub.sending = true → sub.freqSig = axisSig (shown sub.received).axis
  floor : sub.sending = true → FloorNoted sub (shown sub.received)
  complete : ∀ before r, before ++ [r] <+: sub.received → Completes (shown (before ++ [r])) r

theorem View.sent {sub : Subscriber J T} (view : View sub) (sending : sub.sending = true) (frame : ℕ)
    (object : LiveMessage J × ℕ) (now : ℚ) (taken : Bool) : View (b.sendTo dumps sub frame object now taken) := by
  obtain ⟨freqSig, nfBins, nfSentAt, books⟩ := note_books sub object.1 now
  have same : (b.sendTo dumps sub frame object now taken).received =
      if taken then sub.received ++ [⟨frame, object.1, (sub.clientDrops object.1 now).1,
        (b.encodeFor dumps sub frame object now).1, now⟩] else sub.received := by
    unfold sendTo
    rw [books]
    cases taken <;> rfl
  cases taken with
  | false =>
    refine ⟨fun going => absurd going Bool.false_ne_true, fun going => absurd going Bool.false_ne_true, ?_⟩
    rw [same]
    exact view.complete
  | true =>
    rw [if_pos rfl] at same
    generalize text : (b.encodeFor dumps sub frame object now).1 = t at same
    have last : ∀ r : SentText J T,
        shown (sub.received ++ [r]) = (shown sub.received).read (r.message.without r.drops) r.at_ :=
      fun r => List.foldl_append ..
    have moved : (b.sendTo dumps sub frame object now true).freqSig = (sub.clientDrops object.1 now).2.freqSig ∧
        (b.sendTo dumps sub frame object now true).nfBins = (sub.clientDrops object.1 now).2.nfBins ∧
        (b.sendTo dumps sub frame object now true).nfSentAt = (sub.clientDrops object.1 now).2.nfSentAt :=
      ⟨rfl, rfl, rfl⟩
    have ends : Completes (shown (sub.received ++ [⟨frame, object.1, (sub.clientDrops object.1 now).1, t, now⟩]))
        ⟨frame, object.1, (sub.clientDrops object.1 now).1, t, now⟩ ∧
        (sub.clientDrops object.1 now).2.freqSig =
          axisSig (shown (sub.received ++ [⟨frame, object.1, (sub.clientDrops object.1 now).1, t, now⟩])).axis ∧
        FloorNoted (sub.clientDrops object.1 now).2
          (shown (sub.received ++ [⟨frame, object.1, (sub.clientDrops object.1 now).1, t, now⟩])) := by
      rw [last]
      by_cases psd : object.1.isPsd = true
      · rw [Subscriber.clientDrops, if_pos psd]
        obtain ⟨noted, own⟩ := read_axis (view.axis sending) object.1 now psd
        obtain ⟨floorNoted, floor⟩ := read_floor (view.floor sending) object.1 now psd
        exact ⟨fun _ => ⟨own, floor⟩, noted, floorNoted⟩
      · rw [Subscriber.clientDrops, if_neg psd]
        have other : (shown sub.received).read (object.1.without ⟨false, false⟩) now = shown sub.received := if_neg psd
        rw [other]
        exact ⟨fun is => absurd is psd, view.axis sending, view.floor sending⟩
    refine ⟨fun _ => ?_, fun _ => ?_, fun before r front => ?_⟩
    · rw [same, moved.1]
      exact ends.2.1
    · rw [same, FloorNoted, moved.2.1, moved.2.2]
      exact ends.2.2
    · rw [same] at front
      rcases List.prefix_concat_iff.mp front with all | old
      · obtain ⟨rfl, rfl⟩ := List.append_inj' all rfl |>.imp_right List.singleton_inj.mp
        exact ends.1
      · exact view.complete before r old

theorem View.carried {sub : Subscriber J T} (views : ∀ sub ∈ b.subscribers, View sub)
    (follows : Follows dumps b b' sub) : View sub := by
  cases follows with
  | created wantsPsd =>
    refine ⟨fun _ => rfl, fun _ => Or.inl ⟨rfl, rfl⟩, fun before r front => ?_⟩
    exact absurd (List.prefix_nil.mp front) (List.append_ne_nil_of_right_ne_nil _ (List.cons_ne_nil r []))
  | kept member => exact views _ member
  | @offered sub m address addressRows f member offer objects =>
    have view := views sub member
    unfold Subscriber.put
    split
    · exact { view with }
    · exact { view with }
  | sent now taken member sending queue made => exact (views _ member).sent sending _ _ now taken
  | mode highRes averaged member => exact { views _ member with }
  | view visible member => exact { views _ member with }
  | stop member =>
    exact { views _ member with
      axis := fun going => absurd going Bool.false_ne_true
      floor := fun going => absurd going Bool.false_ne_true }
  | leave member => exact { views _ member with }

/-- In every run a page that keeps the last axis and noise floor it got holds,
with each frame, the frame's own axis and a noise floor of its bins that is its
own or less than a second old, whatever frames were dropped before. -/
theorem Reach.frames_complete (reach : Runs.Reach (step dumps) create (fun _ _ => True) b) :
    ∀ sub ∈ b.subscribers, ∀ before r, before ++ [r] <+: sub.received → Completes (shown (before ++ [r])) r :=
  fun sub member => ((reach_all (C := fun _ => True) (P := fun _ sub => View sub) trivial (fun _ _ _ _ _ => trivial)
    (fun _ _ _ _ _ views follows => View.carried views follows) reach).2 sub member).complete

theorem Reach.frames_complete_axisRun : ∃ b, Runs.follow (step fun m => m) create axisRun = some b ∧
    ∀ sub ∈ b.subscribers, ∀ before r, before ++ [r] <+: sub.received → Completes (shown (before ++ [r])) r := by
  obtain ⟨b, goes, -⟩ := axisRun_follow
  exact ⟨b, goes, Reach.frames_complete (.of_follow goes)⟩

end LiveBroadcast

end RFObserver
