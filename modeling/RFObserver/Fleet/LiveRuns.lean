import Mathlib.Data.List.Infix
import Mathlib.Tactic
import RFObserver.Fleet.Live
import RFObserver.Lib.Runs

/-! What a browser of the fleet's live page gets, over all runs of the hub. -/

namespace RFObserver

namespace LiveFeed

variable {J T : Type*} {feed : LiveFeed J T} {id : String} {made : ℕ} {data : SensorFrame J}

/-- The frames held are the sensor's, each under its mode. -/
def Held (id : String) (feed : LiveFeed J T) : Prop :=
  ∀ mode frame, feed.frames.get? mode = some frame → frame.isPsd = true ∧ frame.id = id ∧ frame.mode = mode

theorem Held.create : (LiveFeed.create : LiveFeed J T).Held id := fun _ _ held => nomatch held

theorem Held.handle (held : feed.Held id) : (feed.handle id made data).Held id := by
  intro mode frame its
  rw [LiveFeed.handle, Dict.get?_modify] at its
  split at its
  · rename_i same
    cases its
    exact ⟨rfl, rfl, same⟩
  · exact held mode frame its

end LiveFeed

namespace LiveHub

variable {J T : Type*} {hub hub' : LiveHub J T} {a : Act J}

section Steps

/-- Whether a key is the right one for a message. -/
def Keyed (key : String × String) (m : HubMessage J) : Prop :=
  (m.isPsd = true ↔ key.2 = "psd") ∧ (m.isPsd = true → key.1 = m.id)

theorem not_psd {kind id : String} {rest : J} (note : kind ≠ "psd") : ¬ (HubMessage.note kind id rest).isPsd = true :=
  fun psd => note (beq_iff_eq.mp psd)

theorem keyed_note {at_ name kind id : String} {rest : J} (note : kind ≠ "psd") (other : name ≠ "psd") :
    Keyed (at_, name) (.note kind id rest) :=
  ⟨iff_of_false (not_psd note) other, fun psd => absurd psd (not_psd note)⟩

theorem reconcile_feeds {ids : List String} {changed : Bool} {roster : J} :
    (hub.reconcile ids changed roster).feeds = hub.wanted ids := by
  unfold reconcile
  cases changed <;> rfl

variable [DecidableEq J] {dumps : HubMessage J → Option (List ℚ) → T}

/-- How a browser of `hub'` comes from `hub` in one step. -/
inductive Follows (dumps : HubMessage J → Option (List ℚ) → T) (hub hub' : LiveHub J T) : LiveViewer J T → Prop
  | greeted (changed : Bool) (roster : J) (status : String → J) (history : String → Option J) :
      Follows dumps hub hub' (hub'.greeted changed roster status history)
  | kept {viewer : LiveViewer J T} : viewer ∈ hub.viewers → Follows dumps hub hub' viewer
  | told {viewer : LiveViewer J T} {key : String × String} {m : HubMessage J} : viewer ∈ hub.viewers →
      offers m viewer = true → Keyed key m → Follows dumps hub hub' (viewer.put key m)
  | took {viewer : LiveViewer J T} {messages : List (HubMessage J)}
      {mail : KeyedMail (String × String) (HubMessage J)} :
      viewer ∈ hub.viewers → viewer.mail.take = some (messages, mail) →
      Follows dumps hub hub' { viewer with batch := messages, mail := mail }
  | sent {viewer : LiveViewer J T} {m : HubMessage J} {rest : List (HubMessage J)} (taken : Bool) :
      viewer ∈ hub.viewers → viewer.sending = true → viewer.batch = m :: rest →
      Follows dumps hub hub' (hub.sendTo dumps viewer m taken)
  | mode {viewer : LiveViewer J T} (on : Bool) : viewer ∈ hub.viewers → Follows dumps hub hub' (viewer.setHighRes on)
  | stop {viewer : LiveViewer J T} : viewer ∈ hub.viewers → Follows dumps hub hub' viewer.stop
  | leave {viewer : LiveViewer J T} : viewer ∈ hub.viewers → Follows dumps hub hub' viewer.leave

/-- What happens to the feeds: the sensors wanted change, a frame is handled, or a text is kept. -/
inductive FeedsFollow (dumps : HubMessage J → Option (List ℚ) → T) (hub hub' : LiveHub J T) : Act J → Prop
  | same {a : Act J} : hub'.feeds = hub.feeds → FeedsFollow dumps hub hub' a
  | wanted {a : Act J} (ids : List String) : hub'.feeds = hub.wanted ids → FeedsFollow dumps hub hub' a
  | handled {id : String} {data : SensorFrame J} {feed : LiveFeed J T} : hub.feeds.get? id = some feed →
      hub'.feeds = hub.feeds.modify id feed (fun feed => feed.handle id hub.made data) →
      FeedsFollow dumps hub hub' (.handle id data)
  | encoded {a : Act J} (viewer : LiveViewer J T) (m : HubMessage J) :
      hub'.feeds = (hub.encode dumps viewer m).2.feeds → FeedsFollow dumps hub hub' a

theorem update_follows {i : ℕ} {can : LiveViewer J T → Bool} {change : LiveViewer J T → LiveViewer J T}
    (changed : ∀ viewer ∈ hub.viewers, Follows dumps hub hub' (change viewer))
    (goes : hub.update i can change = some hub') :
    hub'.feeds = hub.feeds ∧ ∀ viewer ∈ hub'.viewers, Follows dumps hub hub' viewer := by
  obtain ⟨viewer, at_, goes⟩ := Option.bind_eq_some_iff.mp goes
  split at goes
  · cases goes
    refine ⟨rfl, fun other member => ?_⟩
    rcases List.mem_or_eq_of_mem_set member with old | rfl
    · exact .kept old
    · exact changed viewer (List.mem_of_getElem? at_)
  · cases goes

theorem publish_follows {key : String × String} {m : HubMessage J} (keyed : Keyed key m) {viewer : LiveViewer J T}
    (member : viewer ∈ (hub.publish key m).viewers) : Follows dumps hub hub' viewer := by
  obtain ⟨old, was, rfl⟩ := List.mem_map.mp member
  split
  · rename_i offered
    exact .told was offered keyed
  · exact .kept was

theorem reconcile_follows {ids : List String} {changed : Bool} {roster : J} {viewer : LiveViewer J T}
    (member : viewer ∈ (hub.reconcile ids changed roster).viewers) : Follows dumps hub hub' viewer := by
  unfold reconcile at member
  dsimp only at member
  split at member
  · obtain ⟨old, was, rfl⟩ := List.mem_map.mp member
    split
    · rename_i offered
      exact .told was offered (keyed_note (by decide) (by decide))
    · exact .kept was
  · exact .kept member

/-- Each browser comes from one of before, and so do the feeds. -/
theorem step_follows (goes : step dumps hub a = some hub') :
    FeedsFollow dumps hub hub' a ∧ ∀ viewer ∈ hub'.viewers, Follows dumps hub hub' viewer := by
  cases a with
  | join ids changed roster status history =>
    cases goes
    refine ⟨.wanted ids reconcile_feeds, fun viewer member => ?_⟩
    rcases List.mem_append.mp member with old | new
    · exact reconcile_follows old
    · obtain rfl := List.mem_singleton.mp new
      exact .greeted changed roster status history
  | reconcile ids changed roster =>
    cases goes
    exact ⟨.wanted ids reconcile_feeds, fun viewer member => reconcile_follows member⟩
  | handle id data =>
    obtain ⟨feed, found, rfl⟩ := Option.map_eq_some_iff.mp goes
    refine ⟨.handled found rfl, fun viewer member => ?_⟩
    obtain ⟨old, was, rfl⟩ := List.mem_map.mp member
    split
    · rename_i offered
      exact .told was offered ⟨iff_of_true rfl rfl, fun _ => rfl⟩
    · exact .kept was
  | status id rest =>
    cases goes
    exact ⟨.same rfl, fun viewer member => publish_follows (keyed_note (by decide) (by decide)) member⟩
  | tick rest =>
    cases goes
    exact ⟨.same rfl, fun viewer member => publish_follows (keyed_note (by decide) (by decide)) member⟩
  | take i =>
    obtain ⟨viewer, at_, goes⟩ := Option.bind_eq_some_iff.mp goes
    split at goes
    · obtain ⟨⟨messages, mail⟩, took, rfl⟩ := Option.map_eq_some_iff.mp goes
      refine ⟨.same rfl, fun other member => ?_⟩
      rcases List.mem_or_eq_of_mem_set member with old | rfl
      · exact .kept old
      · exact .took (List.mem_of_getElem? at_) took
    · cases goes
  | send i taken =>
    obtain ⟨viewer, at_, goes⟩ := Option.bind_eq_some_iff.mp goes
    obtain ⟨m, batch, goes⟩ := Option.bind_eq_some_iff.mp goes
    obtain ⟨rest, batch⟩ := List.head?_eq_some_iff.mp batch
    split at goes
    · rename_i sending
      cases goes
      refine ⟨.encoded viewer m rfl, fun other member => ?_⟩
      rcases List.mem_or_eq_of_mem_set member with old | rfl
      · exact .kept old
      · exact .sent taken (List.mem_of_getElem? at_) sending batch
    · cases goes
  | setHighRes i on =>
    have moved : ∀ viewer ∈ hub.viewers, Follows dumps hub hub' (viewer.setHighRes on) := fun viewer member => .mode on member
    obtain ⟨feeds, follows⟩ := update_follows moved goes
    exact ⟨.same feeds, follows⟩
  | leave i =>
    have moved : ∀ viewer ∈ hub.viewers, Follows dumps hub hub' (viewer.leave) := fun viewer member => .leave member
    obtain ⟨feeds, follows⟩ := update_follows moved goes
    exact ⟨.same feeds, follows⟩
  | stop i =>
    have moved : ∀ viewer ∈ hub.viewers, Follows dumps hub hub' (viewer.stop) := fun viewer member => .stop member
    obtain ⟨feeds, follows⟩ := update_follows moved goes
    exact ⟨.same feeds, follows⟩

end Steps

section Feeds

/-- What holds of every feed, if it holds of a new one, is kept when the sensors wanted change. -/
theorem wanted_all {P : String → LiveFeed J T → Prop} (fresh : ∀ id, P id .create)
    (all : ∀ id feed, hub.feeds.get? id = some feed → P id feed) (ids : List String) :
    ∀ id feed, (hub.wanted ids).get? id = some feed → P id feed := by
  have left : ∀ (keys : List String) (feeds : Dict String (LiveFeed J T)),
      (∀ id feed, feeds.get? id = some feed → P id feed) → ∀ id feed,
      (keys.foldl (fun feeds id => if id ∈ ids then feeds else feeds.erase id) feeds).get? id = some feed →
        P id feed := by
    intro keys
    induction keys with
    | nil => exact fun feeds holds => holds
    | cons key keys ih =>
      intro feeds holds
      refine ih _ fun id feed found => ?_
      dsimp only at found
      split at found
      · exact holds id feed found
      · rw [Dict.get?_erase] at found
        split at found
        · cases found
        · exact holds id feed found
  have added : ∀ (new : List String) (feeds : Dict String (LiveFeed J T)),
      (∀ id feed, feeds.get? id = some feed → P id feed) → ∀ id feed,
      (new.foldl (fun feeds id => feeds.modify id .create fun feed => feed) feeds).get? id = some feed → P id feed := by
    intro new
    induction new with
    | nil => exact fun feeds holds => holds
    | cons key new ih =>
      intro feeds holds
      refine ih _ fun id feed found => ?_
      rw [Dict.get?_modify] at found
      split at found
      · rename_i same
        subst same
        cases before : feeds.get? key with
        | none =>
          rw [before] at found
          cases found
          exact fresh key
        | some old =>
          rw [before] at found
          cases found
          exact holds key old before
      · exact holds id feed found
  exact added ids _ (left _ _ all)

variable [DecidableEq J] {dumps : HubMessage J → Option (List ℚ) → T}

/-- What `encode` does to the feeds: nothing, or a feed keeps a text of its current frame. -/
theorem encode_feeds (hub : LiveHub J T) (dumps : HubMessage J → Option (List ℚ) → T) (viewer : LiveViewer J T)
    (m : HubMessage J) (id : String) :
    ((hub.encode dumps viewer m).2.feeds.get? id = hub.feeds.get? id) ∨
      ∃ feed, m.isPsd = true ∧ m.id = id ∧ hub.feeds.get? id = some feed ∧ feed.frames.get? m.mode = some m ∧
        (hub.encode dumps viewer m).2.feeds.get? id = some { feed with
          encoded := feed.encoded.modify (m.mode, (hub.axisFor viewer m).isSome) (dumps m (hub.axisFor viewer m))
            fun _ => dumps m (hub.axisFor viewer m) } := by
  unfold encode
  cases current : hub.currentFeed m with
  | none => exact Or.inl rfl
  | some feed =>
    unfold currentFeed at current
    split at current
    · rename_i psd
      obtain ⟨found, is⟩ := Option.filter_eq_some_iff.mp current
      simp only [Option.elim_some, Dict.get?_modify]
      by_cases same : m.id = id
      · subst same
        rw [if_pos rfl]
        cases held : feed.encoded.get? (m.mode, (hub.axisFor viewer m).isSome) with
        | some text => exact Or.inl found.symm
        | none => exact Or.inr ⟨feed, psd, rfl, found, of_decide_eq_true is, rfl⟩
      · rw [if_neg same]
        exact Or.inl rfl
    · cases current

theorem held_follows (held : ∀ id feed, hub.feeds.get? id = some feed → feed.Held id)
    (follows : FeedsFollow dumps hub hub' a) :
    ∀ id feed, hub'.feeds.get? id = some feed → feed.Held id := by
  cases follows with
  | same feeds =>
    rw [feeds]
    exact held
  | wanted ids feeds =>
    rw [feeds]
    exact wanted_all (fun _ => LiveFeed.Held.create) held ids
  | @handled id data feed found feeds =>
    intro other its at_
    rw [feeds, Dict.get?_modify] at at_
    split at at_
    · rename_i same
      subst same
      rw [found] at at_
      cases at_
      exact (held id feed found).handle
    · exact held other its at_
  | encoded viewer m feeds =>
    intro id its at_
    rw [feeds] at at_
    rcases encode_feeds hub dumps viewer m id with same | ⟨feed, -, -, found, -, kept⟩
    · exact held id its (same ▸ at_)
    · rw [kept] at at_
      cases at_
      exact held id feed found

end Feeds

section Mail

/-- A browser's mail is the newest message of each kind, of a mode it takes; and while
it never asked for High Res it is sent no frame of that mode. -/
structure Mailed (viewer : LiveViewer J T) : Prop where
  sound : viewer.mail.Sound
  keyed : ∀ key m, viewer.mail.pending.get? key = some m → Keyed key m ∧ (m.isPsd = true → viewer.wants m.mode = true)
  lowRes : viewer.everHighRes = false → viewer.highRes = false ∧
    (∀ m ∈ viewer.batch, m.isPsd = true → m.mode ≠ some "high_res") ∧
    ∀ r ∈ viewer.received, r.message.isPsd = true → r.message.mode ≠ some "high_res"

theorem Mailed.create : Mailed (LiveViewer.create : LiveViewer J T) :=
  ⟨KeyedMail.sound_empty, fun _ _ none => (nomatch none), fun _ => ⟨rfl, List.forall_mem_nil _, List.forall_mem_nil _⟩⟩

theorem Mailed.put {viewer : LiveViewer J T} (mailed : Mailed viewer) {key : String × String} {m : HubMessage J}
    (keyed : Keyed key m) (wanted : m.isPsd = true → viewer.wants m.mode = true) : Mailed (viewer.put key m) := by
  refine ⟨mailed.sound.put key m, fun key' m' its => ?_, mailed.lowRes⟩
  have found : (viewer.mail.pending.modify key m fun _ => m).get? key' = some m' := its
  rw [Dict.get?_modify] at found
  split at found
  · rename_i same
    cases found
    exact ⟨same ▸ keyed, wanted⟩
  · exact mailed.keyed key' m' found

theorem frameFor_spec {viewer : LiveViewer J T} {feed : LiveFeed J T} {frame : HubMessage J}
    (frames : viewer.frameFor feed = some frame) :
    (∃ mode, feed.frames.get? mode = some frame) ∧ viewer.wants frame.mode = true := by
  have wanted := List.find?_some frames
  have member := (List.mem_insertionSort _).mp (List.mem_of_find?_eq_some frames)
  obtain ⟨⟨mode, its⟩, inside, rfl⟩ := List.mem_map.mp member
  exact ⟨⟨mode, Dict.get?_eq_some.mpr inside⟩, wanted⟩

theorem Mailed.note {viewer : LiveViewer J T} (mailed : Mailed viewer) {at_ name kind id : String} {rest : J}
    (note : kind ≠ "psd") (other : name ≠ "psd") : Mailed (viewer.put (at_, name) (.note kind id rest)) :=
  mailed.put (keyed_note note other) fun psd => absurd psd (not_psd note)

theorem Mailed.greet {viewer : LiveViewer J T} (mailed : Mailed viewer) (status : String → J)
    (history : String → Option J) {id : String} {feed : LiveFeed J T} (held : feed.Held id) :
    Mailed (LiveHub.greet status history viewer (id, feed)) := by
  have told : Mailed (viewer.put (id, "status") (.note "status" id (status id))) := mailed.note (by decide) (by decide)
  have drawn : Mailed ((history id).elim (viewer.put (id, "status") (.note "status" id (status id))) fun points =>
      (viewer.put (id, "status") (.note "status" id (status id))).put (id, "power_history")
        (.note "power_history" id points)) := by
    cases history id with
    | none => exact told
    | some points => exact told.note (by decide) (by decide)
  unfold LiveHub.greet
  dsimp only
  generalize (history id).elim _ _ = drawn_ at drawn ⊢
  cases frames : drawn_.frameFor feed with
  | none => exact drawn
  | some frame =>
    obtain ⟨⟨mode, its⟩, wanted⟩ := frameFor_spec frames
    obtain ⟨psd, sensor, -⟩ := held mode frame its
    exact drawn.put ⟨iff_of_true psd rfl, fun _ => sensor.symm⟩ fun _ => wanted

theorem Mailed.greeted (held : ∀ id feed, hub.feeds.get? id = some feed → feed.Held id) (changed : Bool) (roster : J)
    (status : String → J) (history : String → Option J) : Mailed (hub.greeted changed roster status history) := by
  have all : ∀ (feeds : List (String × LiveFeed J T)) (viewer : LiveViewer J T), (∀ e ∈ feeds, e.2.Held e.1) →
      Mailed viewer → Mailed (feeds.foldl (LiveHub.greet status history) viewer) := by
    intro feeds
    induction feeds with
    | nil => exact fun _ _ mailed => mailed
    | cons e feeds ih =>
      intro viewer each mailed
      obtain ⟨first, rest⟩ := List.forall_mem_cons.mp each
      exact ih _ rest (mailed.greet status history first)
  unfold LiveHub.greeted
  refine all _ _ (fun e member => held e.1 e.2 (Dict.get?_eq_some.mpr member)) (Mailed.note ?_ (by decide) (by decide))
  cases changed with
  | false => exact Mailed.create
  | true => exact Mailed.create.note (by decide) (by decide)

variable [DecidableEq J] {dumps : HubMessage J → Option (List ℚ) → T}

theorem Mailed.sent {viewer : LiveViewer J T} (mailed : Mailed viewer) {m : HubMessage J} {rest : List (HubMessage J)}
    (batch : viewer.batch = m :: rest) (taken : Bool) : Mailed (hub.sendTo dumps viewer m taken) := by
  have noted : ∃ freqSig, hub.noted viewer m = { viewer with freqSig := freqSig } := by
    unfold LiveHub.noted
    cases axisSig (hub.axisFor viewer m) <;> exact ⟨_, rfl⟩
  obtain ⟨freqSig, noted⟩ := noted
  unfold sendTo
  rw [noted]
  generalize (hub.encode dumps viewer m).1 = text
  cases taken with
  | true =>
    refine ⟨mailed.sound, mailed.keyed, fun never => ?_⟩
    obtain ⟨off, waiting, got⟩ := mailed.lowRes never
    rw [batch] at waiting
    obtain ⟨first, later⟩ := List.forall_mem_cons.mp waiting
    refine ⟨off, ?_, fun r member => ?_⟩
    · change ∀ m ∈ viewer.batch.tail, _
      rw [batch]
      exact later
    · rcases List.mem_append.mp member with old | new
      · exact got r old
      · obtain rfl := List.mem_singleton.mp new
        exact first
  | false =>
    refine ⟨mailed.sound, mailed.keyed, fun never => ?_⟩
    obtain ⟨off, waiting, got⟩ := mailed.lowRes never
    exact ⟨off, fun m member => waiting m (List.mem_of_mem_tail member), got⟩

theorem Mailed.carried {viewer : LiveViewer J T} (held : ∀ id feed, hub'.feeds.get? id = some feed → feed.Held id)
    (mails : ∀ viewer ∈ hub.viewers, Mailed viewer) (follows : Follows dumps hub hub' viewer) : Mailed viewer := by
  cases follows with
  | greeted changed roster status history => exact Mailed.greeted held changed roster status history
  | kept member => exact mails _ member
  | @told viewer key m member offered keyed =>
    refine (mails viewer member).put keyed fun psd => ?_
    have wanted := (Bool.and_eq_true_iff.mp offered).2
    rw [psd] at wanted
    exact wanted
  | @took viewer messages mail member taken =>
    have mailed := mails viewer member
    obtain ⟨messages', mail', took, sound, each⟩ := mailed.sound.take
    cases took.symm.trans taken
    refine ⟨sound, fun key m its => ?_, fun never => ?_⟩
    · have left : mail.pending = .empty := by
        obtain ⟨_, -, same⟩ := Option.map_eq_some_iff.mp taken
        cases same
        rfl
      change mail.pending.get? key = some m at its
      rw [left] at its
      cases its
    · obtain ⟨off, -, got⟩ := mailed.lowRes never
      have wanted : List.Forall₂ (fun _ m => m.isPsd = true → m.mode ≠ some "high_res") viewer.mail.order messages := by
        refine each.imp fun key m newest psd high => ?_
        have takes := (mailed.keyed key m ((mailed.sound.newest key).trans newest)).2 psd
        rw [LiveViewer.wants, if_pos high, off] at takes
        cases takes
      exact ⟨off, OptionList.forall₂_right wanted, got⟩
  | sent taken member sending batch => exact (mails _ member).sent batch taken
  | @mode viewer on member =>
    have mailed := mails viewer member
    unfold LiveViewer.setHighRes
    split
    · exact mailed
    · obtain ⟨sound, left⟩ := mailed.sound.remove fun key => key.2 == "psd"
      refine ⟨sound, fun key m its => ?_, fun never => ?_⟩
      · obtain ⟨before, other⟩ := left key m its
        obtain ⟨keyed, -⟩ := mailed.keyed key m before
        exact ⟨keyed, fun psd => absurd (beq_iff_eq.mpr (keyed.1.mp psd)) (Bool.eq_false_iff.mp other)⟩
      · obtain ⟨before, off⟩ := Bool.or_eq_false_iff.mp never
        exact ⟨off, (mailed.lowRes before).2⟩
  | stop member => exact { mails _ member with }
  | leave member => exact { mails _ member with }

/-- A browser with High Res off, and one that turns it on while its mail waits. -/
def toggled : List (Act Unit) :=
  [.join ["a"] true () (fun _ => ()) fun _ => none, .join ["a"] false () (fun _ => ()) fun _ => none,
    .handle "a" ⟨some [1, 2, 3], some "averaged", some 1, ()⟩, .setHighRes 1 true,
    .handle "a" ⟨none, some "high_res", some 2, ()⟩, .handle "a" ⟨none, some "high_res", some 3, ()⟩, .tick ()]

end Mail

end LiveHub

end RFObserver
