import RFObserver.Fleet.LiveRuns

/-! The axis on which a browser of the fleet's live page draws a sensor's frames. -/

namespace RFObserver

namespace LiveHub

variable {J T : Type*} {hub hub' : LiveHub J T} {a : Act J}

/-- The axis a browser holds for a sensor: the last one that came with a frame. -/
def shownAxis (received : List (HubText J T)) (id : String) : Option (List ℚ) :=
  received.foldl (fun axis r => if r.message.id = id ∧ r.freqs.isSome then r.freqs else axis) none

theorem shownAxis_concat (received : List (HubText J T)) (r : HubText J T) (id : String) :
    shownAxis (received ++ [r]) id = if r.message.id = id ∧ r.freqs.isSome then r.freqs else shownAxis received id :=
  List.foldl_append ..

/-- No frame brings another axis while the text of another mode's frame is kept with the axis. -/
def Steady (hub : LiveHub J T) : Act J → Prop
  | .handle id data => ∀ feed ∈ hub.feeds.get? id, ∀ e ∈ feed.encoded.entries, e.1.1 ≠ data.mode → e.1.2 = true →
      feed.axisAfter data = feed.frequencies
  | _ => True

theorem greeted_shape (hub : LiveHub J T) (changed : Bool) (roster : J) (status : String → J)
    (history : String → Option J) :
    ∃ mail, hub.greeted changed roster status history = { (LiveViewer.create : LiveViewer J T) with mail := mail } := by
  have one : ∀ (viewer : LiveViewer J T) (feed : String × LiveFeed J T), ∃ mail,
      greet status history viewer feed = { viewer with mail := mail } := by
    intro viewer feed
    unfold greet
    cases history feed.1 with
    | none =>
      dsimp only [Option.elim_none]
      cases (viewer.put (feed.1, "status") (.note "status" feed.1 (status feed.1))).frameFor feed.2 <;> exact ⟨_, rfl⟩
    | some points =>
      dsimp only [Option.elim_some]
      cases ((viewer.put (feed.1, "status") (.note "status" feed.1 (status feed.1))).put (feed.1, "power_history")
        (.note "power_history" feed.1 points)).frameFor feed.2 <;> exact ⟨_, rfl⟩
  have all : ∀ (feeds : List (String × LiveFeed J T)) (viewer : LiveViewer J T), ∃ mail,
      feeds.foldl (greet status history) viewer = { viewer with mail := mail } := by
    intro feeds
    induction feeds with
    | nil => exact fun viewer => ⟨viewer.mail, rfl⟩
    | cons feed feeds ih =>
      intro viewer
      obtain ⟨mail, first⟩ := one viewer feed
      obtain ⟨mail', rest⟩ := ih { viewer with mail := mail }
      exact ⟨mail', by rw [List.foldl_cons, first, rest]⟩
  unfold greeted
  obtain ⟨mail, told⟩ := all hub.feeds.entries
    ((if changed then LiveViewer.create.put ("*", "sensors") (.note "sensors" "" roster)
      else .create : LiveViewer J T).put ("*", "sensors") (.note "sensors" "" roster))
  refine ⟨mail, told.trans ?_⟩
  cases changed <;> rfl

theorem axisFor_eq {viewer : LiveViewer J T} {m : HubMessage J} {feed : LiveFeed J T} (psd : m.isPsd = true)
    (found : hub.feeds.get? m.id = some feed) :
    hub.axisFor viewer m = if (hub.axisFor viewer m).isSome then feed.frequencies else none := by
  have held : hub.axisOf m = feed.frequencies := by rw [axisOf, if_pos psd, found, Option.bind_some]
  unfold axisFor
  split
  · rename_i lacks
    have some_ : (hub.axisOf m).isSome = true := by
      cases its : hub.axisOf m with
      | none => rw [its] at lacks; cases lacks.1
      | some axis => rfl
    rw [if_pos some_, held]
  · rfl

/-- The texts kept are those of the current frames, with the axis or without. -/
def TextsOf (dumps : HubMessage J → Option (List ℚ) → T) (feed : LiveFeed J T) : Prop :=
  ∀ mode carries text, feed.encoded.get? (mode, carries) = some text → ∃ frame, feed.frames.get? mode = some frame ∧
    text = dumps frame (if carries then feed.frequencies else none)

variable {dumps : HubMessage J → Option (List ℚ) → T}

theorem TextsOf.handle {feed : LiveFeed J T} {id : String} {made : ℕ} {data : SensorFrame J}
    (texts : TextsOf dumps feed)
    (steady : ∀ e ∈ feed.encoded.entries, e.1.1 ≠ data.mode → e.1.2 = true → feed.axisAfter data = feed.frequencies) :
    TextsOf dumps (feed.handle id made data) := by
  intro mode carries text kept
  have before : mode ≠ data.mode ∧ feed.encoded.get? (mode, carries) = some text := by
    change ((feed.encoded.erase (data.mode, true)).erase (data.mode, false)).get? (mode, carries) = some text at kept
    rw [Dict.get?_erase, Dict.get?_erase] at kept
    split_ifs at kept with without with_
    refine ⟨fun same => ?_, kept⟩
    cases carries with
    | true => exact with_ (by rw [same])
    | false => exact without (by rw [same])
  obtain ⟨other, kept⟩ := before
  obtain ⟨frame, held, rfl⟩ := texts mode carries text kept
  refine ⟨frame, ?_, ?_⟩
  · change (feed.frames.modify data.mode _ _).get? mode = _
    rw [Dict.get?_modify, if_neg (Ne.symm other)]
    exact held
  · cases carries with
    | false => rfl
    | true =>
      have same := steady ((mode, true), _) (Dict.get?_eq_some.mp kept) other rfl
      change dumps frame feed.frequencies = dumps frame (feed.axisAfter data)
      rw [same]

variable [DecidableEq J]

theorem texts_follows (texts : ∀ id feed, hub.feeds.get? id = some feed → TextsOf dumps feed) (steady : Steady hub a)
    (follows : FeedsFollow dumps hub hub' a) : ∀ id feed, hub'.feeds.get? id = some feed → TextsOf dumps feed := by
  cases follows with
  | same feeds =>
    rw [feeds]
    exact texts
  | wanted ids feeds =>
    rw [feeds]
    exact wanted_all (P := fun _ feed => TextsOf dumps feed) (fun _ _ _ _ none => (nomatch none)) texts ids
  | @handled id data feed found feeds =>
    intro other its at_
    rw [feeds, Dict.get?_modify] at at_
    split at at_
    · rename_i same
      subst same
      rw [found] at at_
      cases at_
      exact (texts id feed found).handle (steady feed found)
    · exact texts other its at_
  | encoded viewer m feeds =>
    intro id its at_
    rw [feeds] at at_
    rcases encode_feeds hub dumps viewer m id with same | ⟨feed, psd, rfl, found, current, kept⟩
    · exact texts id its (same ▸ at_)
    · rw [kept] at at_
      cases at_
      intro mode carries text own
      rw [Dict.get?_modify] at own
      split at own
      · rename_i same
        cases own
        cases same
        have own : dumps m (hub.axisFor viewer m) =
            dumps m (if (hub.axisFor viewer m).isSome then feed.frequencies else none) :=
          congrArg (dumps m) (axisFor_eq psd found)
        exact ⟨m, current, own⟩
      · exact texts m.id feed found mode carries text own

/-- The text of a message is as if it were made for the browser alone. -/
theorem encode_text (texts : ∀ id feed, hub.feeds.get? id = some feed → TextsOf dumps feed) (viewer : LiveViewer J T)
    (m : HubMessage J) : (hub.encode dumps viewer m).1 = dumps m (hub.axisFor viewer m) := by
  unfold encode
  cases current : hub.currentFeed m with
  | none => rfl
  | some feed =>
    unfold currentFeed at current
    split at current
    · rename_i psd
      obtain ⟨found, is⟩ := Option.filter_eq_some_iff.mp current
      simp only [Option.elim_some]
      cases held : feed.encoded.get? (m.mode, (hub.axisFor viewer m).isSome) with
      | none => rfl
      | some text =>
        obtain ⟨frame, its, rfl⟩ := texts m.id feed found _ _ _ held
        cases its.symm.trans (of_decide_eq_true is)
        exact congrArg (dumps m) (axisFor_eq psd found).symm
    · cases current

/-- What the hub notes of a browser is what it holds, and each text it got is the message's
own, after which it holds the axis that the hub held for the sensor. -/
structure Drawn (dumps : HubMessage J → Option (List ℚ) → T) (viewer : LiveViewer J T) : Prop where
  noted : viewer.sending = true → ∀ id, viewer.freqSig.get? id = axisSig (shownAxis viewer.received id)
  texts : ∀ r ∈ viewer.received, r.text = dumps r.message r.freqs
  drawn : ∀ before r, before ++ [r] <+: viewer.received → r.message.isPsd = true → (axisSig r.current).isSome = true →
    axisSig (shownAxis (before ++ [r]) r.message.id) = axisSig r.current

theorem Drawn.sent {viewer : LiveViewer J T} (drawn : Drawn dumps viewer)
    (texts : ∀ id feed, hub.feeds.get? id = some feed → TextsOf dumps feed) (sending : viewer.sending = true)
    (m : HubMessage J) (taken : Bool) : Drawn dumps (hub.sendTo dumps viewer m taken) := by
  have books : ∃ freqSig, hub.noted viewer m = { viewer with freqSig := freqSig } := by
    unfold LiveHub.noted
    cases axisSig (hub.axisFor viewer m) <;> exact ⟨_, rfl⟩
  have given : hub.axisFor viewer m = none ∧ hub.noted viewer m = viewer ∧
        ((axisSig (hub.axisOf m)).isSome = true → axisSig (shownAxis viewer.received m.id) = axisSig (hub.axisOf m)) ∨
      ∃ axis sig, hub.axisFor viewer m = some axis ∧ hub.axisOf m = some axis ∧ axisSig (some axis) = some sig ∧
        (hub.noted viewer m).freqSig = viewer.freqSig.modify m.id sig fun _ => sig := by
    have notes := drawn.noted sending m.id
    unfold LiveHub.noted axisFor
    split
    · rename_i lacks
      obtain ⟨sig, its⟩ := Option.isSome_iff_exists.mp lacks.1
      cases own : hub.axisOf m with
      | none => rw [own] at its; cases its
      | some axis =>
        rw [own] at its
        exact Or.inr ⟨axis, sig, rfl, rfl, its, by rw [its]; rfl⟩
    · rename_i has
      refine Or.inl ⟨rfl, rfl, fun some_ => ?_⟩
      by_contra other
      exact has ⟨some_, fun same => other (notes.symm.trans same)⟩
  have text := encode_text texts viewer m
  unfold sendTo
  cases taken with
  | false =>
    obtain ⟨freqSig, books⟩ := books
    rw [books]
    exact ⟨fun going => absurd going Bool.false_ne_true, drawn.texts, drawn.drawn⟩
  | true =>
    have received : ((hub.noted viewer m).advance
          ⟨m, hub.axisFor viewer m, hub.axisOf m, (hub.encode dumps viewer m).1⟩ true).received =
        viewer.received ++ [⟨m, hub.axisFor viewer m, hub.axisOf m, (hub.encode dumps viewer m).1⟩] := by
      obtain ⟨freqSig, books⟩ := books
      rw [books]
      rfl
    refine ⟨fun _ id => ?_, fun r member => ?_, fun before r front => ?_⟩
    · rw [received, shownAxis_concat]
      change (hub.noted viewer m).freqSig.get? id = _
      rcases given with ⟨none, same, -⟩ | ⟨axis, sig, some_, -, its, notes⟩
      · rw [none, same, if_neg (by simp)]
        exact drawn.noted sending id
      · rw [notes, some_, Dict.get?_modify]
        by_cases here : m.id = id
        · rw [if_pos here, if_pos ⟨here, rfl⟩, its]
        · rw [if_neg here, if_neg fun both => here both.1]
          exact drawn.noted sending id
    · rw [received] at member
      rcases List.mem_append.mp member with old | new
      · exact drawn.texts r old
      · obtain rfl := List.mem_singleton.mp new
        exact text
    · rw [received] at front
      rcases List.prefix_concat_iff.mp front with all | old
      · obtain ⟨rfl, rfl⟩ := List.append_inj' all rfl |>.imp_right List.singleton_inj.mp
        intro _ current
        rw [shownAxis_concat]
        rcases given with ⟨none, -, holds⟩ | ⟨axis, sig, some_, its, -, -⟩
        · rw [none, if_neg (by simp)]
          exact holds current
        · rw [some_, its, if_pos ⟨rfl, rfl⟩]
      · exact drawn.drawn before r old

theorem Drawn.carried {viewer : LiveViewer J T}
    (texts : ∀ id feed, hub.feeds.get? id = some feed → TextsOf dumps feed)
    (all : ∀ viewer ∈ hub.viewers, Drawn dumps viewer) (follows : Follows dumps hub hub' viewer) : Drawn dumps viewer := by
  cases follows with
  | greeted changed roster status history =>
    obtain ⟨mail, shape⟩ := greeted_shape hub' changed roster status history
    rw [shape]
    refine ⟨fun _ _ => rfl, List.forall_mem_nil _, fun before r front => ?_⟩
    exact absurd (List.prefix_nil.mp front) (List.append_ne_nil_of_right_ne_nil _ (List.cons_ne_nil r []))
  | kept member => exact all _ member
  | told member offered keyed => exact { all _ member with }
  | took member taken => exact { all _ member with }
  | sent taken member sending batch => exact (all _ member).sent texts sending _ taken
  | @mode viewer on member =>
    unfold LiveViewer.setHighRes
    split
    · exact all viewer member
    · exact { all viewer member with }
  | stop member => exact { all _ member with noted := fun going => absurd going Bool.false_ne_true }
  | leave member => exact { all _ member with }

/-- In every run in which no frame brings another axis while a text of another mode is kept with
the axis, each text is the message's own, and a browser that gets a frame holds the axis that the
hub holds for the sensor: the frame's own, unless a newer one has come since. -/
theorem Reach.axis_held (reach : Runs.Reach (step dumps) create Steady hub) :
    ∀ viewer ∈ hub.viewers, Drawn dumps viewer := by
  have start : ∀ id feed, (create : LiveHub J T).feeds.get? id = some feed → TextsOf dumps feed :=
    fun _ feed (none : Option.none = some feed) => (nomatch none)
  have all : (∀ id feed, hub.feeds.get? id = some feed → TextsOf dumps feed) ∧
      ∀ viewer ∈ hub.viewers, Drawn dumps viewer := by
    refine Runs.Reach.invariant (I := fun hub : LiveHub J T =>
      (∀ id feed, hub.feeds.get? id = some feed → TextsOf dumps feed) ∧
        ∀ viewer ∈ hub.viewers, Drawn dumps viewer) ⟨start, List.forall_mem_nil _⟩ ?_ reach
    rintro hub a hub' ⟨texts, all⟩ steady goes
    obtain ⟨feeds, follows⟩ := step_follows goes
    exact ⟨texts_follows texts steady feeds, fun viewer member => Drawn.carried texts all (follows viewer member)⟩
  exact all.2

instance Steady.decidable (hub : LiveHub J T) : (a : Act J) → Decidable (Steady hub a)
  | .handle id _ =>
    inferInstanceAs (Decidable (∀ feed ∈ hub.feeds.get? id, ∀ e ∈ feed.encoded.entries, _ → _ → _))
  | .join .. | .leave .. | .setHighRes .. | .reconcile .. | .status .. | .tick .. | .take .. | .send .. | .stop .. =>
    inferInstanceAs (Decidable True)

/-- A browser joins, whose sensor is heard of then. -/
def joins : Act Unit := .join ["a"] false () (fun _ => ()) fun _ => none

/-- A browser takes its mail of `n` messages and is sent all of it. -/
def reads (i n : ℕ) : List (Act Unit) := .take i :: List.replicate n (.send i true)

def frame (axis : Option (List ℚ)) (mode : String) : Act Unit := .handle "a" ⟨axis, some mode, none, ()⟩

/-- Two browsers share the texts of averaged frames, and the sensor is retuned. -/
def retuned : List (Act Unit) :=
  [joins, joins, frame (some [1, 2, 3]) "averaged"] ++ reads 0 3 ++ reads 1 3 ++ [frame none "averaged"] ++ reads 0 1 ++
    [frame (some [4, 5, 6]) "averaged"] ++ reads 0 1 ++ reads 1 1

theorem Reach.axis_held_retuned :
    ∃ hub, Runs.follow (step Prod.mk) create retuned = some hub ∧
      hub.viewers.map (fun viewer => shownAxis viewer.received "a") = [some [4, 5, 6], some [4, 5, 6]] ∧
      ∀ viewer ∈ hub.viewers, Drawn Prod.mk viewer := by
  have meets : Runs.Meets (step Prod.mk) Steady create retuned := by decide
  have final : (Runs.follow (step Prod.mk) create retuned).map (fun hub => hub.viewers.map fun viewer =>
      shownAxis viewer.received "a") = some [some [4, 5, 6], some [4, 5, 6]] := by decide
  obtain ⟨hub, goes, shown⟩ := Option.map_eq_some_iff.mp final
  exact ⟨hub, goes, shown, Reach.axis_held (Runs.Reach.start.follow meets goes)⟩

/-- The sensor is retuned while the text of an averaged frame is kept, and a browser joins. -/
def retunedBetween : List (Act Unit) :=
  [joins, frame (some [1, 2, 3]) "averaged"] ++ reads 0 3 ++ [frame (some [4, 5, 6]) "high_res", joins] ++ reads 1 3 ++
    [frame none "averaged"] ++ reads 1 1

/-- That browser is sent the old axis and noted to hold the new one, which no later frame brings. -/
theorem axis_stale : ∃ hub, Runs.follow (step Prod.mk) create retunedBetween = some hub ∧
    hub.viewers[1]?.map (fun viewer => (viewer.received.map (fun r => r.text.2), viewer.received.map HubText.freqs)) =
      some ([none, none, some [1, 2, 3], none], [none, none, some [4, 5, 6], none]) := by
  have final : (Runs.follow (step Prod.mk) create retunedBetween).map (fun hub => hub.viewers[1]?.map fun viewer =>
      (viewer.received.map (fun r => r.text.2), viewer.received.map HubText.freqs)) =
        some (some ([none, none, some [1, 2, 3], none], [none, none, some [4, 5, 6], none])) := by decide
  obtain ⟨hub, goes, got⟩ := Option.map_eq_some_iff.mp final
  exact ⟨hub, goes, got⟩

end LiveHub

end RFObserver
