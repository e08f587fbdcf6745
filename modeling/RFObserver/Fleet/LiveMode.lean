import Mathlib.Data.List.Basic
import Mathlib.Tactic
import RFObserver.Lib.Runs

/-! Which of its two streams the fleet's live hub asks each sensor for. -/

namespace RFObserver

/-- A sensor's feed: its socket by number, the mode that the hub takes it to be in,
the `_send_mode` tasks that have not started and the sends under way with their
sockets. `asked` are the modes that its socket was asked for, and `failed` tells
whether one of these sends failed. -/
structure ModeFeed where
  sock : Option ℕ
  highRes : Bool
  waiting : List Bool
  sending : List (ℕ × Bool)
  asked : List Bool
  failed : Bool
  deriving DecidableEq

namespace ModeFeed

variable (f : ModeFeed)

def create : ModeFeed := ⟨none, false, [], [], [], false⟩

/-- `_apply_mode` for one feed. -/
def apply (want : Bool) : ModeFeed :=
  if f.sock.isSome ∧ f.highRes ≠ want then { f with waiting := f.waiting ++ [want] } else f

/-- `_send_mode`, up to the end of its send. -/
def sendMode (on : Bool) : ModeFeed :=
  f.sock.elim f fun sock => { f with highRes := on, sending := f.sending ++ [(sock, on)], asked := f.asked ++ [on] }

/-- A new socket streams averaged frames. -/
def connect (sock : ℕ) (want : Bool) : ModeFeed :=
  let fresh : ModeFeed := { f with sock := some sock, highRes := false, asked := [], failed := false }
  if want then fresh.sendMode true else fresh

def disconnect : ModeFeed := { f with sock := none }

/-- The first task starts. -/
def start : Option ModeFeed :=
  f.waiting.head?.map fun on => { f with waiting := f.waiting.tail }.sendMode on

/-- The end of a send; it is tried again on the next change if it failed. -/
def sent (k : ℕ) (ok : Bool) : Option ModeFeed :=
  f.sending[k]?.map fun send =>
    let left := { f with sending := f.sending.eraseIdx k }
    if ok then left else { left with highRes := !send.2, failed := f.failed || f.sock == some send.1 }

end ModeFeed

/-- The feeds, the High Res switch of every browser, and how many sockets there were. -/
structure ModeHub where
  feeds : List ModeFeed
  viewers : List Bool
  sockets : ℕ
  deriving DecidableEq

namespace ModeHub

variable (hub : ModeHub)

def create : ModeHub := ⟨[], [], 0⟩

def wantsHighRes : Bool := hub.viewers.any id

/-- Browsers have changed. -/
def applyMode (viewers : List Bool) : ModeHub :=
  { hub with viewers, feeds := hub.feeds.map fun f => f.apply (viewers.any id) }

inductive Act
  | join
  | leave (i : ℕ)
  | setHighRes (i : ℕ) (on : Bool)
  | watch
  | unwatch (i : ℕ)
  | connect (i : ℕ)
  | disconnect (i : ℕ)
  | start (i : ℕ)
  | sent (i k : ℕ) (ok : Bool)

/-- Something that happens to one feed. -/
def update (i : ℕ) (change : ModeFeed → Option ModeFeed) : Option ModeHub :=
  (hub.feeds[i]?.bind change).map fun f => { hub with feeds := hub.feeds.set i f }

def step : ModeHub → Act → Option ModeHub
  | hub, .join => some { hub with viewers := hub.viewers ++ [false] }
  | hub, .leave i => if i < hub.viewers.length then some (hub.applyMode (hub.viewers.eraseIdx i)) else none
  | hub, .setHighRes i on => if i < hub.viewers.length then some (hub.applyMode (hub.viewers.set i on)) else none
  | hub, .watch => some { hub with feeds := hub.feeds ++ [.create] }
  | hub, .unwatch i => some { hub with feeds := hub.feeds.eraseIdx i }
  | hub, .connect i =>
    update { hub with sockets := hub.sockets + 1 } i fun f =>
      if f.sock = none then some (f.connect hub.sockets hub.wantsHighRes) else none
  | hub, .disconnect i => hub.update i fun f => if f.sock.isSome then some f.disconnect else none
  | hub, .start i => hub.update i ModeFeed.start
  | hub, .sent i k ok => hub.update i fun f => f.sent k ok

/-- Nobody changes what is wanted before every task has started. -/
def Settled (viewers : List Bool) : Prop := viewers.any id = hub.wantsHighRes ∨ ∀ f ∈ hub.feeds, f.waiting = []

/-- The condition on the steps: browsers change a settled hub, and a send fails
before its feed has another socket. -/
def Prompt : Act → Prop
  | .leave i => hub.Settled (hub.viewers.eraseIdx i)
  | .setHighRes i on => hub.Settled (hub.viewers.set i on)
  | .sent i k false => ∀ f ∈ hub.feeds[i]?, ∀ send ∈ f.sending[k]?, f.sock = none ∨ f.sock = some send.1
  | _ => True

instance Settled.decidable (viewers : List Bool) : Decidable (hub.Settled viewers) := inferInstanceAs (Decidable (_ ∨ _))

instance Prompt.decidable : ∀ act, Decidable (hub.Prompt act)
  | .leave _ | .setHighRes _ _ => Settled.decidable ..
  | .sent i k false =>
    inferInstanceAs (Decidable (∀ f ∈ hub.feeds[i]?, ∀ send ∈ f.sending[k]?, f.sock = none ∨ f.sock = some send.1))
  | .join | .watch | .unwatch _ | .connect _ | .disconnect _ | .start _ | .sent _ _ true => isTrue trivial

/-- A feed of a hub that wants `want`: every task is for that, and the hub knows
its socket's mode, that wanted unless a task is to start. -/
structure Follows (want : Bool) (f : ModeFeed) : Prop where
  due : ∀ w ∈ f.waiting, w = want
  told : f.sock.isSome → f.failed = false → f.highRes = f.asked.getLastD false ∧ (f.waiting = [] → f.highRes = want)

section Steps

variable {hub hub' : ModeHub} {want old : Bool} {f f' : ModeFeed}

theorem Follows.apply (follows : Follows old f) (settled : want = old ∨ f.waiting = []) : Follows want (f.apply want) := by
  rw [ModeFeed.apply]
  split_ifs with behind
  · refine ⟨fun w member => ?_, fun connected sound => ⟨(follows.told connected sound).1, fun none => ?_⟩⟩
    · obtain before | new := List.mem_append.mp member
      · obtain rfl | none := settled
        · exact follows.due w before
        · exact absurd (none ▸ before) List.not_mem_nil
      · exact List.mem_singleton.mp new
    · exact absurd none (by simp)
  · refine ⟨fun w member => ?_, fun connected sound => ⟨(follows.told connected sound).1, fun none => ?_⟩⟩
    · obtain rfl | none := settled
      · exact follows.due w member
      · exact absurd (none ▸ member) List.not_mem_nil
    · exact not_not.mp fun other => behind ⟨connected, other⟩

theorem Follows.sendMode (due : ∀ w ∈ f.waiting, w = want) : Follows want (f.sendMode want) := by
  rw [ModeFeed.sendMode]
  cases connected : f.sock with
  | none =>
    refine ⟨due, fun some_ => ?_⟩
    have some_ : f.sock.isSome = true := some_
    rw [connected] at some_
    cases some_
  | some sock => exact ⟨due, fun _ _ => ⟨List.getLastD_concat.symm, fun _ => rfl⟩⟩

theorem Follows.connect (follows : Follows want f) (sock : ℕ) : Follows want (f.connect sock want) := by
  rw [ModeFeed.connect]
  cases want with
  | true => exact Follows.sendMode follows.due
  | false => exact ⟨follows.due, fun _ _ => ⟨rfl, fun _ => rfl⟩⟩

theorem Follows.start (follows : Follows want f) (goes : f.start = some f') : Follows want f' := by
  obtain ⟨on, first, rfl⟩ := Option.map_eq_some_iff.mp goes
  cases follows.due on (List.mem_of_head? first)
  exact Follows.sendMode fun w member => follows.due w (List.mem_of_mem_tail member)

theorem Follows.sent (follows : Follows want f) {k : ℕ} {ok : Bool}
    (prompt : ok = false → ∀ send ∈ f.sending[k]?, f.sock = none ∨ f.sock = some send.1)
    (goes : f.sent k ok = some f') : Follows want f' := by
  obtain ⟨send, sends, rfl⟩ := Option.map_eq_some_iff.mp goes
  cases ok with
  | true => exact ⟨follows.due, follows.told⟩
  | false =>
    refine ⟨follows.due, fun connected sound => ?_⟩
    obtain none | own := prompt rfl send sends
    · exact absurd connected (by rw [none]; exact Bool.false_ne_true)
    · -- the send was on this socket, so this one is not sound
      have failed : (f.failed || f.sock == some send.1) = false := sound
      rw [own, beq_self_eq_true, Bool.or_true] at failed
      cases failed

/-- The feed that something happens to follows, and the others stay. -/
theorem update_follows {i : ℕ} {change : ModeFeed → Option ModeFeed} (goes : hub.update i change = some hub')
    (all : ∀ f ∈ hub.feeds, Follows want f)
    (keeps : ∀ f ∈ hub.feeds[i]?, ∀ f', Follows want f → change f = some f' → Follows want f') :
    hub'.viewers = hub.viewers ∧ ∀ f ∈ hub'.feeds, Follows want f := by
  obtain ⟨f', changed, rfl⟩ := Option.map_eq_some_iff.mp goes
  obtain ⟨f, at_, change⟩ := Option.bind_eq_some_iff.mp changed
  refine ⟨rfl, fun g member => ?_⟩
  obtain before | rfl := List.mem_or_eq_of_mem_set member
  · exact all g before
  · exact keeps f at_ g (all f (List.mem_of_getElem? at_)) change

theorem applyMode_follows {viewers : List Bool} (settled : hub.Settled viewers)
    (all : ∀ f ∈ hub.feeds, Follows hub.wantsHighRes f) :
    ∀ f ∈ (hub.applyMode viewers).feeds, Follows (hub.applyMode viewers).wantsHighRes f := by
  intro f member
  obtain ⟨g, inside, rfl⟩ := List.mem_map.mp member
  exact (all g inside).apply (settled.imp_right fun none => none g inside)

theorem step_follows {act : Act} (prompt : hub.Prompt act) (goes : step hub act = some hub')
    (all : ∀ f ∈ hub.feeds, Follows hub.wantsHighRes f) : ∀ f ∈ hub'.feeds, Follows hub'.wantsHighRes f := by
  have updated : ∀ hub₀ : ModeHub, hub₀.viewers = hub.viewers → hub₀.feeds = hub.feeds →
      ∀ i change, hub₀.update i change = some hub' →
      (∀ f ∈ hub₀.feeds[i]?, ∀ f', Follows hub.wantsHighRes f → change f = some f' → Follows hub.wantsHighRes f') →
      ∀ f ∈ hub'.feeds, Follows hub'.wantsHighRes f := by
    intro hub₀ viewers feeds i change goes keeps
    obtain ⟨same, all'⟩ := update_follows goes (feeds ▸ all) keeps
    rw [wantsHighRes, same, viewers]
    exact all'
  cases act with
  | join =>
    cases goes
    intro f member
    have same : wantsHighRes { hub with viewers := hub.viewers ++ [false] } = hub.wantsHighRes := by
      rw [wantsHighRes, List.any_append]
      exact Bool.or_false _
    exact same ▸ all f member
  | leave i =>
    simp only [step] at goes
    split_ifs at goes
    cases goes
    exact applyMode_follows prompt all
  | setHighRes i on =>
    simp only [step] at goes
    split_ifs at goes
    cases goes
    exact applyMode_follows prompt all
  | watch =>
    cases goes
    intro f member
    obtain before | new := List.mem_append.mp member
    · exact all f before
    · cases List.mem_singleton.mp new
      exact ⟨List.forall_mem_nil _, fun none => absurd none Bool.false_ne_true⟩
  | unwatch i =>
    cases goes
    exact fun f member => all f (List.mem_of_mem_eraseIdx member)
  | connect i =>
    refine updated { hub with sockets := hub.sockets + 1 } rfl rfl i _ goes fun f _ f' follows change => ?_
    split_ifs at change
    cases change
    exact follows.connect hub.sockets
  | disconnect i =>
    refine updated _ rfl rfl i _ goes fun f _ f' follows change => ?_
    split_ifs at change
    cases change
    exact ⟨follows.due, fun none => absurd none Bool.false_ne_true⟩
  | start i => exact updated _ rfl rfl i _ goes fun f _ f' follows change => follows.start change
  | sent i k ok =>
    refine updated _ rfl rfl i _ goes fun f at_ f' follows change => follows.sent (fun fails => ?_) change
    subst fails
    exact prompt f at_

end Steps

/-- Where nothing is left to start and no send failed on it, a socket was last
asked for High Res if and only if some browser wants it, and the hub knows. -/
theorem Reach.mode_followed {hub : ModeHub} (reach : Runs.Reach step create Prompt hub) :
    ∀ f ∈ hub.feeds, f.sock.isSome → f.failed = false → f.waiting = [] →
      f.asked.getLastD false = hub.wantsHighRes ∧ f.highRes = hub.wantsHighRes := by
  have all : ∀ f ∈ hub.feeds, Follows hub.wantsHighRes f :=
    Runs.Reach.invariant (I := fun hub => ∀ f ∈ hub.feeds, Follows hub.wantsHighRes f) (List.forall_mem_nil _)
      (fun _ _ _ holds prompt goes => step_follows prompt goes holds) reach
  intro f member connected sound none
  obtain ⟨known, wanted⟩ := (all f member).told connected sound
  exact ⟨known ▸ wanted none, wanted none⟩

/-- High Res is wanted, the send fails, and the next socket is asked for it. -/
def retried : List Act :=
  [.watch, .connect 0, .join, .join, .setHighRes 1 true, .start 0, .sent 0 0 false, .disconnect 0, .connect 0,
    .sent 0 0 true, .leave 0]

theorem Reach.mode_followed_retried : ∃ hub : ModeHub, Runs.follow step create retried = some hub ∧
    ∀ f ∈ hub.feeds, f.asked.getLastD false = true ∧ f.highRes = true := by
  have goes : Runs.follow step create retried = some ⟨[⟨some 1, true, [], [], [true], false⟩], [true], 2⟩ := rfl
  have followed := Reach.mode_followed (Runs.Reach.start.follow (by decide) goes)
  refine ⟨_, goes, fun f member => followed f member ?_ ?_ ?_⟩
  all_goals
    cases List.mem_singleton.mp member
    rfl

/-- Switched on and off before the task starts: the sensor streams High Res that nobody wants. -/
theorem mode_stuck : (Runs.follow step create
    [.watch, .connect 0, .join, .setHighRes 0 true, .setHighRes 0 false, .start 0, .sent 0 0 true]).map (fun hub =>
      (hub.wantsHighRes, hub.feeds.map fun f => (f.asked, f.highRes, f.waiting, f.failed))) =
    some (false, [([true], true, [], false)]) := rfl

end ModeHub

end RFObserver
