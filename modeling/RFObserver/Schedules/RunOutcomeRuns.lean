import RFObserver.Schedules.RunOutcomes
import RFObserver.Storage.GuardedWriteRuns

namespace RFObserver

namespace RunWrites

variable {s : RunWrites} {i j n c d : Nat} {a : Attempt}

theorem mem_places {l : List Statement} : i ∈ places l ↔ ∃ a, ⟨some a, i⟩ ∈ l := by
  simp only [places, List.mem_map, List.mem_filter]
  constructor
  · rintro ⟨⟨writer, place⟩, ⟨member, own⟩, rfl⟩
    obtain ⟨a, rfl⟩ := Option.isSome_iff_exists.mp own
    exact ⟨a, member⟩
  · rintro ⟨a, member⟩
    exact ⟨⟨some a, i⟩, ⟨member, rfl⟩, rfl⟩

@[simp] theorem places_append (l m : List Statement) : places (l ++ m) = places l ++ places m := by
  simp [places]

theorem places_subset {l m : List Statement} (subset : l ⊆ m) : places l ⊆ places m := by
  intro i member
  obtain ⟨a, inside⟩ := mem_places.mp member
  exact mem_places.mpr ⟨a, subset inside⟩

theorem bound_subset_statements (connection : RunConnection) : connection.bound ⊆ connection.statements := by
  intro e member
  rcases DbJob.mem_bound member with now | queued
  · exact List.mem_append_left _ now
  · exact List.mem_append_right _ (List.mem_filterMap.mpr ⟨_, queued, rfl⟩)

/-- The job is still to come, with no close before it. -/
def Reaches (x : Option Nat × DbJob) : List (Option Nat × DbJob) → Prop
  | [] => False
  | y :: rest => x = y ∨ (y.2 ≠ .close ∧ Reaches x rest)

theorem Reaches.append {x y : Option Nat × DbJob} {queue : List (Option Nat × DbJob)} (reaches : Reaches x queue) :
    Reaches x (queue ++ [y]) := by
  induction queue with
  | nil => exact reaches.elim
  | cons z rest ih => exact reaches.imp_right fun later => ⟨later.1, ih later.2⟩

theorem reaches_last {x : Option Nat × DbJob} {queue : List (Option Nat × DbJob)}
    (open_ : ∀ y ∈ queue, y.2 ≠ .close) : Reaches x (queue ++ [x]) := by
  induction queue with
  | nil => exact Or.inl rfl
  | cons z rest ih =>
    exact Or.inr ⟨open_ z (List.mem_cons_self ..), ih fun y member => open_ y (List.mem_cons_of_mem _ member)⟩

/-- What is known of a write that waits for a job, or has an answer. -/
def Stage (s : RunWrites) (i : Nat) : GuardCall → Prop
  | .waiting _ 0 c => c < s.opened
  | .waiting a (_ + 1) c =>
    i ∈ s.rows ∨ (⟨some a, i⟩ ∈ (s.connections c).transaction ∧
      Reaches (some i, .commit (some a)) (s.connections c).queue)
  | .answered a 0 c true =>
    c < s.opened ∧ (s.db = some c → i ∈ s.rows ∨ ⟨some a, i⟩ ∈ (s.connections c).transaction)
  | .answered _ (_ + 1) _ true => i ∈ s.rows
  | .returned _ => i ∈ s.rows
  | _ => True

/-- The connection in use has no close queued, a report that was given up on
will not be committed, and every write is as far as its coroutine knows. -/
structure Sound (s : RunWrites) : Prop where
  live : ∀ c, s.db = some c → c < s.opened ∧ ∀ x ∈ (s.connections c).queue, x.2 ≠ .close
  unopened : ∀ c, s.opened ≤ c → s.connections c = ⟨[], []⟩
  raised : ∀ i, s.calls i = .raised → i ∉ s.rows ∧ ∀ c, i ∉ places (s.connections c).bound
  known : ∀ i, i ∈ s.rows ∨ (∃ c, i ∈ places (s.connections c).statements) ∨ s.calls i ≠ .idle → i < s.reports.length
  stage : ∀ i, s.Stage i (s.calls i)
  sorted : s.rows.Pairwise (· ≤ ·)
  first : ∀ i entry, s.reports[i]? = some entry → entry.status = .recording → i = 0

theorem sound_create : create.Sound where
  live := by
    rintro c ⟨⟩
    exact ⟨Nat.one_pos, by simp [create]⟩
  unopened := fun _ _ => rfl
  raised := fun _ raised => by cases raised
  known := by simp [create, rows, places, RunConnection.statements, RunConnection.jobs]
  stage := fun _ => trivial
  sorted := by simp [create, rows, places]
  first := by simp [create]

theorem Sound.revocable (sound : s.Sound) (revocable : s.Revocable i) :
    i ∉ s.rows ∧ ∀ c, i ∉ places (s.connections c).bound := by
  refine ⟨revocable.1, fun c => ?_⟩
  by_cases opened : c < s.opened
  · exact revocable.2 c opened
  · rw [sound.unopened c (by omega)]
    simp [RunConnection.bound, RunConnection.jobs, DbJob.bound, places]

/-- One write goes on; the others are where they were. -/
theorem Sound.setCall (sound : s.Sound) {call : GuardCall} (stage : s.Stage i call)
    (raised : call = .raised → s.Revocable i) (known : i < s.reports.length) : (s.setCall i call).Sound := by
  refine ⟨sound.live, sound.unopened, ?_, ?_, ?_, sound.sorted, sound.first⟩
  · intro j given_up
    by_cases same : j = i
    · subst same
      simp only [RunWrites.setCall, Function.update_self] at given_up
      exact sound.revocable (raised given_up)
    · simp only [RunWrites.setCall, Function.update_of_ne same] at given_up
      exact sound.raised j given_up
  · intro j there
    by_cases same : j = i
    · exact same ▸ known
    · simp only [RunWrites.setCall, Function.update_of_ne same] at there
      exact sound.known j there
  · intro j
    by_cases same : j = i
    · subst same
      simp only [RunWrites.setCall, Function.update_self]
      cases call <;> exact stage
    · simp only [RunWrites.setCall, Function.update_of_ne same]
      exact sound.stage j

theorem queue_connection (owner : Option Nat) (job : DbJob) : ((s.queue c owner job).connections c).statements =
    (s.connections c).statements ++ job.statement?.toList := by
  cases job <;> simp [RunWrites.queue, RunConnection.statements, RunConnection.jobs, DbJob.statement?]

/-- Only a commit binds more of what is on a connection. -/
theorem queue_bound {owner : Option Nat} {job : DbJob} (member : i ∈ places ((s.queue c owner job).connections d).bound) :
    i ∈ places (s.connections d).bound ∨ d = c ∧ i ∈ places (s.connections c).statements ∧ ∃ w, job = .commit w := by
  by_cases same : d = c
  · subst same
    obtain ⟨a, inside⟩ := mem_places.mp member
    have jobs : ((s.queue d owner job).connections d).jobs = (s.connections d).jobs ++ [job] := by
      simp [RunWrites.queue, RunConnection.jobs]
    have transaction : ((s.queue d owner job).connections d).transaction = (s.connections d).transaction := by
      simp [RunWrites.queue]
    rw [RunConnection.bound, jobs, transaction] at inside
    rcases DbJob.bound_queued job inside with old | ⟨w, rfl⟩
    · exact Or.inl (mem_places.mpr ⟨a, old⟩)
    · refine Or.inr ⟨rfl, ?_, w, rfl⟩
      have there := bound_subset_statements _ (mem_places.mp member).choose_spec
      rw [queue_connection] at there
      exact mem_places.mpr ⟨_, by simpa [DbJob.statement?] using there⟩
  · simp only [RunWrites.queue, Function.update_of_ne same] at member
    exact Or.inl member

/-- What a write knows stays so behind a new job on any connection. -/
theorem Stage.queue {call : GuardCall} (stage : s.Stage i call) (owner : Option Nat) (job : DbJob) :
    (s.queue c owner job).Stage i call := by
  have transaction : ∀ d, ((s.queue c owner job).connections d).transaction = (s.connections d).transaction := by
    intro d
    by_cases same : d = c
    · subst same
      simp [RunWrites.queue]
    · simp [RunWrites.queue, Function.update_of_ne same]
  cases call with
  | waiting a n d =>
    cases n with
    | zero => exact stage
    | succ n =>
      refine stage.imp_right fun ⟨executed, reaches⟩ => ⟨by rw [transaction]; exact executed, ?_⟩
      by_cases same : d = c
      · subst same
        simp only [RunWrites.queue, Function.update_self]
        exact reaches.append
      · simpa [RunWrites.queue, Function.update_of_ne same] using reaches
  | answered a n d ok =>
    cases n with
    | zero =>
      cases ok with
      | false => trivial
      | true =>
        refine ⟨stage.1, fun current => ?_⟩
        rw [transaction]
        exact stage.2 current
    | succ n =>
      cases ok with
      | false => trivial
      | true => exact stage
  | returned => exact stage
  | idle | starting | timedOut | connecting | raised => trivial

/-- A job on an open connection: a close only once the connection is not in
use, and a commit behind no report that was given up on. -/
theorem Sound.queue (sound : s.Sound) (opened : c < s.opened) (owner : Option Nat) {job : DbJob}
    (close : job = .close → s.db ≠ some c) (commit : ∀ w, job = .commit w → s.Unburdened c)
    (known : ∀ a i, job = .statement ⟨some a, i⟩ → i < s.reports.length) : (s.queue c owner job).Sound where
  live := by
    intro d current
    obtain ⟨inside, open_⟩ := sound.live d current
    refine ⟨inside, ?_⟩
    by_cases same : d = c
    · subst same
      intro x member
      simp only [RunWrites.queue, Function.update_self] at member
      rcases List.mem_append.mp member with old | new
      · exact open_ x old
      · cases List.mem_singleton.mp new
        exact fun closes => close closes current
    · simpa [RunWrites.queue, Function.update_of_ne same] using open_
  unopened := by
    intro d beyond
    have other : d ≠ c := by rintro rfl; exact absurd opened (Nat.not_lt.mpr beyond)
    simpa [RunWrites.queue, Function.update_of_ne other] using sound.unopened d beyond
  raised := by
    intro i raised
    obtain ⟨absent, revocable⟩ := sound.raised i raised
    refine ⟨absent, fun d member => ?_⟩
    rcases queue_bound member with old | ⟨-, burden, w, isCommit⟩
    · exact revocable d old
    · exact commit w isCommit i burden raised
  known := by
    rintro i (row | ⟨d, member⟩ | called)
    · exact sound.known i (Or.inl row)
    · by_cases same : d = c
      · subst same
        rw [queue_connection, places_append] at member
        rcases List.mem_append.mp member with old | new
        · exact sound.known i (Or.inr (Or.inl ⟨d, old⟩))
        · obtain ⟨a, isStatement⟩ := mem_places.mp new
          cases job with
          | statement e => exact known a i (by simpa [DbJob.statement?, eq_comm] using isStatement)
          | commit | close => simp [DbJob.statement?] at isStatement
      · simp only [RunWrites.queue, Function.update_of_ne same] at member
        exact sound.known i (Or.inr (Or.inl ⟨d, member⟩))
    · exact sound.known i (Or.inr (Or.inr called))
  stage := fun i => (sound.stage i).queue owner job
  sorted := sound.sorted
  first := sound.first

/-- With the same connections, of which none comes into use again. -/
theorem Stage.mono {t : RunWrites} {call : GuardCall} (stage : s.Stage i call) (opened : s.opened ≤ t.opened)
    (table : t.table = s.table) (same : t.connections = s.connections)
    (db : ∀ c, t.db = some c → c < s.opened → s.db = some c) : t.Stage i call := by
  have rows : t.rows = s.rows := by rw [rows, rows, table]
  cases call with
  | waiting a n c =>
    cases n with
    | zero => exact Nat.lt_of_lt_of_le stage opened
    | succ n =>
      simp only [Stage, rows, same]
      exact stage
  | answered a n c ok =>
    cases n with
    | zero =>
      cases ok with
      | false => trivial
      | true =>
        simp only [Stage, rows, same]
        exact ⟨Nat.lt_of_lt_of_le stage.1 opened, fun current => stage.2 (db c current stage.1)⟩
    | succ n =>
      cases ok with
      | false => trivial
      | true =>
        simp only [Stage, rows]
        exact stage
  | returned a =>
    simp only [Stage, rows]
    exact stage
  | idle | starting | timedOut | connecting | raised => trivial

theorem Sound.lock (sound : s.Sound) (opening : Option (Option Nat)) :
    ({ s with opening := opening } : RunWrites).Sound :=
  ⟨sound.live, sound.unopened, sound.raised, sound.known,
    fun i => (sound.stage i).mono le_rfl rfl rfl fun _ current _ => current, sound.sorted, sound.first⟩

theorem Sound.disconnect (sound : s.Sound) (opening : Option (Option Nat)) :
    ({ s with db := none, opening := opening } : RunWrites).Sound :=
  ⟨by simp, sound.unopened, sound.raised, sound.known,
    fun i => (sound.stage i).mono le_rfl rfl rfl (by simp), sound.sorted, sound.first⟩

theorem Sound.abandon (sound : s.Sound) (owner : Option Nat) : (s.abandon owner).Sound := by
  unfold RunWrites.abandon
  cases current : s.db with
  | none =>
    have locked := sound.lock (some owner)
    rwa [current] at locked
  | some c => exact (sound.disconnect (some owner)).queue (sound.live c current).1 none (by simp) (by simp) (by simp)

theorem Sound.connected (sound : s.Sound) : s.connected.Sound where
  live := by
    rintro c ⟨⟩
    refine ⟨Nat.lt_succ_self _, ?_⟩
    simp [RunWrites.connected, sound.unopened s.opened le_rfl]
  unopened := fun c beyond => sound.unopened c (Nat.le_of_succ_le beyond)
  raised := sound.raised
  known := sound.known
  stage := fun i => (sound.stage i).mono (Nat.le_succ _) rfl rfl (by
    rintro c ⟨⟩ old
    exact absurd old (lt_irrefl _))
  sorted := sound.sorted
  first := sound.first

theorem Sound.report (sound : s.Sound) {entry : RunEntry} (ordered : entry.status ≠ .recording ∨ s.reports = []) :
    ({ s with reports := s.reports ++ [entry], latest := some entry } : RunWrites).Sound where
  live := sound.live
  unopened := sound.unopened
  raised := sound.raised
  known := by
    intro i there
    have := sound.known i there
    simp only [List.length_append, List.length_singleton]
    omega
  stage := fun i => (sound.stage i).mono le_rfl rfl rfl fun _ current _ => current
  sorted := sound.sorted
  first := by
    intro i e at_i recording
    by_cases old : i < s.reports.length
    · rw [List.getElem?_append_left old] at at_i
      exact sound.first i e at_i recording
    · rw [List.getElem?_append_right (Nat.not_lt.mp old), List.getElem?_singleton] at at_i
      obtain ⟨last, ⟨⟩⟩ := Option.ite_none_right_eq_some.mp at_i
      rcases ordered with final | new
      · exact absurd recording final
      · simpa [new] using last

/-- A statement or a commit is queued for a write that is under way. -/
theorem Sound.issue (sound : s.Sound) (known : i < s.reports.length) (n : Nat)
    (raises : s.db = none → s.Revocable i)
    (commits : ∀ c, s.db = some c → n ≠ 0 →
      s.Unburdened c ∧ (i ∈ s.rows ∨ ⟨some a, i⟩ ∈ (s.connections c).transaction)) : (s.issue i a n).Sound := by
  unfold RunWrites.issue
  cases current : s.db with
  | none => exact sound.setCall trivial (fun _ => raises current) known
  | some c =>
    obtain ⟨opened, open_⟩ := sound.live c current
    have commit : ∀ w, job i a n = .commit w → s.Unburdened c := by
      intro w isCommit
      refine (commits c current ?_).1
      rintro rfl
      cases isCommit
    have statement : ∀ b j, job i a n = .statement ⟨some b, j⟩ → j < s.reports.length := by
      intro b j isStatement
      cases n with
      | zero =>
        cases isStatement
        exact known
      | succ n => cases isStatement
    have queued : (s.queue c (some i) (job i a n)).Sound :=
      sound.queue opened (some i) (by cases n <;> simp [job]) commit statement
    refine queued.setCall ?_ (by simp) known
    cases n with
    | zero => exact opened
    | succ n =>
      refine (commits c current (by simp)).2.imp_right fun executed => ⟨?_, ?_⟩
      · simpa [RunWrites.queue] using executed
      · simp only [RunWrites.queue, Function.update_self]
        exact reaches_last open_

section Finish
variable {ok : Bool} {owner : Option Nat} {done : DbJob} {rest : List (Option Nat × DbJob)}

/-- A finished job is answered to the write that waits for it, and to no other. -/
theorem answer_cases (j : Nat) :
    (∃ a n, s.calls j = .waiting a n c ∧ job j a n = done ∧ s.answer c ok owner done j = .answered a n c ok) ∨
    (s.answer c ok owner done j = s.calls j ∧
      ∀ a n, owner = some j → s.calls j = .waiting a n c → job j a n ≠ done) := by
  unfold answer
  cases owner with
  | none => exact Or.inr ⟨rfl, by simp⟩
  | some i =>
    by_cases same : j = i
    · subst same
      cases call : s.calls j with
      | waiting a n d =>
        by_cases its : d = c ∧ job j a n = done
        · obtain ⟨rfl, isDone⟩ := its
          exact Or.inl ⟨a, n, rfl, isDone, by simp [call, isDone]⟩
        · refine Or.inr ⟨by simp [its, call], ?_⟩
          rintro b m - same isDone
          cases same
          exact its ⟨rfl, isDone⟩
      | idle | starting | answered | timedOut | connecting | returned | raised => exact Or.inr ⟨by simp [call], by simp⟩
    · refine Or.inr ⟨?_, fun _ _ its => absurd (Option.some.inj its).symm same⟩
      cases call : s.calls i with
      | waiting a n d =>
        by_cases its : d = c ∧ job i a n = done
        · simp [call, its, Function.update_of_ne same]
        · simp [call, its]
      | idle | starting | answered | timedOut | connecting | returned | raised => simp [call]

theorem finish_rows : (s.finish c ok owner done rest).rows =
    s.rows ++ places (done.effect ok (s.connections c).transaction).1 := by
  simp [RunWrites.finish, rows]

theorem finish_self : (s.finish c ok owner done rest).connections c =
    ⟨rest, (done.effect ok (s.connections c).transaction).2⟩ := by
  simp [RunWrites.finish]

theorem finish_other (other : d ≠ c) : (s.finish c ok owner done rest).connections d = s.connections d := by
  simp [RunWrites.finish, Function.update_of_ne other]

theorem Sound.opened (sound : s.Sound) {x : Option Nat × DbJob} (head : (s.connections c).queue = x :: rest) :
    c < s.opened := by
  by_contra beyond
  rw [sound.unopened c (Nat.not_lt.mp beyond)] at head
  cases head

/-- What a finished job does to an executed upsert: it stays in the transaction
or is committed, but for a close. -/
theorem executed_finish {transaction : List Statement} {e : Statement} (open_ : done ≠ .close) (executed : e ∈ transaction) :
    e ∈ (done.effect ok transaction).1 ∨ e ∈ (done.effect ok transaction).2 := by
  cases done with
  | statement new =>
    cases ok with
    | false => exact Or.inr executed
    | true => exact Or.inr (List.mem_append_left _ executed)
  | commit w =>
    cases ok with
    | false => exact Or.inr executed
    | true => exact Or.inl executed
  | close => exact absurd rfl open_

/-- A write that is not answered knows as much as before. -/
theorem Stage.finish {call : GuardCall} (stage : s.Stage i call) (sound : s.Sound)
    (head : (s.connections c).queue = (owner, done) :: rest)
    (unanswered : ∀ a n, owner = some i → call = .waiting a n c → job i a n ≠ done) :
    (s.finish c ok owner done rest).Stage i call := by
  have landed : i ∈ s.rows → i ∈ (s.finish c ok owner done rest).rows := by
    rw [finish_rows]
    exact List.mem_append_left _
  have committed : ∀ a, ⟨some a, i⟩ ∈ (done.effect ok (s.connections c).transaction).1 →
      i ∈ (s.finish c ok owner done rest).rows := by
    intro a member
    rw [finish_rows]
    exact List.mem_append_right _ (mem_places.mpr ⟨a, member⟩)
  cases call with
  | waiting a n d =>
    cases n with
    | zero => exact stage
    | succ n =>
      rcases stage with row | ⟨executed, reaches⟩
      · exact Or.inl (landed row)
      · by_cases same : d = c
        · subst same
          rw [head] at reaches
          rcases reaches with its | ⟨open_, later⟩
          · cases its
            exact absurd rfl (unanswered a (n + 1) rfl rfl)
          · rcases @executed_finish ok _ _ _ open_ executed with now | still
            · exact Or.inl (committed a now)
            · refine Or.inr ?_
              rw [finish_self]
              exact ⟨still, later⟩
        · refine Or.inr ?_
          rw [finish_other same]
          exact ⟨executed, reaches⟩
  | answered a n d answer =>
    cases n with
    | zero =>
      cases answer with
      | false => trivial
      | true =>
        refine ⟨stage.1, fun current => ?_⟩
        rcases stage.2 current with row | executed
        · exact Or.inl (landed row)
        · by_cases same : d = c
          · subst same
            have open_ := (sound.live d current).2 (owner, done) (by simp [head])
            rcases @executed_finish ok _ _ _ open_ executed with now | still
            · exact Or.inl (committed a now)
            · exact Or.inr (by rw [finish_self]; exact still)
          · exact Or.inr (by rw [finish_other same]; exact executed)
    | succ n =>
      cases answer with
      | false => trivial
      | true => exact landed stage
  | returned => exact landed stage
  | idle | starting | timedOut | connecting | raised => trivial

/-- An answered write has executed its upsert, or committed it. -/
theorem Stage.answered (stage : s.Stage i (.waiting a n c)) (opened : c < s.opened) (isDone : job i a n = done) :
    (s.finish c ok owner done rest).Stage i (.answered a n c ok) := by
  cases ok with
  | false => cases n <;> trivial
  | true =>
    cases n with
    | zero =>
      refine ⟨opened, fun _ => Or.inr ?_⟩
      rw [finish_self, ← isDone]
      exact List.mem_append_right _ (List.mem_singleton_self _)
    | succ n =>
      have commit : done = .commit (some a) := isDone.symm
      change i ∈ (s.finish c true owner done rest).rows
      rw [finish_rows, commit]
      rcases stage with row | ⟨executed, -⟩
      · exact List.mem_append_left _ row
      · exact List.mem_append_right _ (mem_places.mpr ⟨a, executed⟩)

theorem Sound.finish (sound : s.Sound) (head : (s.connections c).queue = (owner, done) :: rest)
    (timely : (s.rows ++ places (done.effect ok (s.connections c).transaction).1).Pairwise (· ≤ ·)) :
    (s.finish c ok owner done rest).Sound := by
  have jobs : (s.connections c).jobs = done :: rest.map Prod.snd := by simp [RunConnection.jobs, head]
  have opened := sound.opened head
  have unchanged : ∀ i, (s.finish c ok owner done rest).calls i = .raised → s.calls i = .raised := by
    intro i raised
    rcases @answer_cases s c ok owner done i with
      ⟨a, n, -, -, answered⟩ | ⟨same, -⟩
    · have now := answered.symm.trans raised
      cases now
    · exact same.symm.trans raised
  refine ⟨?_, ?_, ?_, ?_, ?_, by rw [finish_rows]; exact timely, sound.first⟩
  · intro d current
    obtain ⟨inside, open_⟩ := sound.live d current
    refine ⟨inside, ?_⟩
    by_cases same : d = c
    · subst same
      rw [finish_self]
      exact fun x member => open_ x (by rw [head]; exact List.mem_cons_of_mem _ member)
    · rwa [finish_other same]
  · intro d beyond
    have other : d ≠ c := by rintro rfl; exact absurd opened (Nat.not_lt.mpr beyond)
    rw [finish_other other]
    exact sound.unopened d beyond
  · intro i raised
    obtain ⟨absent, revocable⟩ := sound.raised i (unchanged i raised)
    have nothing : ∀ b, ⟨some b, i⟩ ∉ DbJob.bound (done :: rest.map Prod.snd) (s.connections c).transaction := by
      intro b member
      refine revocable c (mem_places.mpr ⟨b, ?_⟩)
      rwa [RunConnection.bound, jobs]
    refine ⟨?_, fun d member => ?_⟩
    · rw [finish_rows]
      intro member
      rcases List.mem_append.mp member with old | new
      · exact absent old
      · obtain ⟨b, inside⟩ := mem_places.mp new
        exact nothing b (DbJob.bound_work done ok (Or.inl inside))
    · by_cases same : d = c
      · subst same
        rw [finish_self] at member
        obtain ⟨b, inside⟩ := mem_places.mp member
        exact nothing b (DbJob.bound_work done ok (Or.inr inside))
      · rw [finish_other same] at member
        exact revocable d member
  · have before : ∀ i b, ⟨some b, i⟩ ∈ (s.connections c).transaction ∨ done = .statement ⟨some b, i⟩ →
        i < s.reports.length := by
      intro i b there
      refine sound.known i (Or.inr (Or.inl ⟨c, mem_places.mpr ⟨b, ?_⟩⟩))
      rw [RunConnection.statements, jobs]
      rcases there with executed | rfl
      · exact List.mem_append_left _ executed
      · exact List.mem_append_right _ (by simp [DbJob.statement?])
    rintro i (row | ⟨d, member⟩ | called)
    · rw [finish_rows] at row
      rcases List.mem_append.mp row with old | new
      · exact sound.known i (Or.inl old)
      · obtain ⟨b, inside⟩ := mem_places.mp new
        exact before i b (DbJob.mem_effect (Or.inl inside))
    · by_cases same : d = c
      · subst same
        obtain ⟨b, inside⟩ := mem_places.mp member
        rw [finish_self, RunConnection.statements] at inside
        rcases List.mem_append.mp inside with executed | queued
        · exact before i b (DbJob.mem_effect (Or.inr executed))
        · refine sound.known i (Or.inr (Or.inl ⟨d, mem_places.mpr ⟨b, ?_⟩⟩))
          rw [RunConnection.statements, jobs]
          refine List.mem_append_right _ ?_
          obtain ⟨x, inRest, isStatement⟩ := List.mem_filterMap.mp queued
          exact List.mem_filterMap.mpr ⟨x, List.mem_cons_of_mem _ inRest, isStatement⟩
      · rw [finish_other same] at member
        exact sound.known i (Or.inr (Or.inl ⟨d, member⟩))
    · refine sound.known i (Or.inr (Or.inr ?_))
      rcases @answer_cases s c ok owner done i with
        ⟨a, n, waiting, -, -⟩ | ⟨same, -⟩
      · simp [waiting]
      · exact same ▸ called
  · intro i
    change (s.finish c ok owner done rest).Stage i (s.answer c ok owner done i)
    rcases @answer_cases s c ok owner done i with
      ⟨a, n, waiting, isDone, answered⟩ | ⟨same, unanswered⟩
    · rw [answered]
      exact Stage.answered (waiting ▸ sound.stage i) opened isDone
    · rw [same]
      exact (sound.stage i).finish sound head unanswered

end Finish

theorem Sound.expect (sound : s.Sound) (expects : Nat → Option Nat) : ({ s with expects := expects } : RunWrites).Sound :=
  ⟨sound.live, sound.unopened, sound.raised, sound.known,
    fun i => (sound.stage i).mono le_rfl rfl rfl fun _ current _ => current, sound.sorted, sound.first⟩

theorem Sound.called (sound : s.Sound) {call : GuardCall} (there : s.calls i = call) (busy : call ≠ .idle) :
    i < s.reports.length :=
  sound.known i (Or.inr (Or.inr (there ▸ busy)))

theorem Sound.work (sound : s.Sound) {ok : Bool} (timely : s.Timely (.work c ok)) {s' : RunWrites}
    (goes : s.step (.work c ok) = some s') : s'.Sound := by
  cases head : (s.connections c).queue with
  | nil => simp [RunWrites.step, head] at goes
  | cons x rest =>
    obtain ⟨owner, done⟩ := x
    have none_new : ∀ {l : List Statement}, l = [] → (s.rows ++ places l).Pairwise (· ≤ ·) := by
      rintro l rfl
      simpa [places] using sound.sorted
    cases done with
    | statement e =>
      simp only [RunWrites.step, head] at goes
      obtain ⟨-, ⟨⟩⟩ := Option.ite_none_left_eq_some.mp goes
      exact sound.finish head (none_new (by cases ok <;> rfl))
    | commit w =>
      simp only [RunWrites.step, head] at goes
      cases goes
      refine sound.finish head ?_
      cases ok with
      | false => exact none_new rfl
      | true => exact timely (.commit w) (by simp [RunConnection.jobs, head]) rfl
    | close =>
      simp only [RunWrites.step, head] at goes
      cases goes
      exact sound.finish head (none_new (by cases ok <;> rfl))

/-- The coroutine of a write goes on with the answer. -/
theorem Sound.resume (sound : s.Sound) (orderly : s.Orderly (.resume i)) {s' : RunWrites}
    (goes : s.step (.resume i) = some s') : s'.Sound := by
  obtain ⟨-, raises, commits, steady⟩ := orderly
  cases call : s.calls i with
  | answered a n c ok =>
    have known := sound.called call (by simp)
    have stage := sound.stage i
    rw [call] at stage
    cases ok with
    | false =>
      simp only [RunWrites.step, call] at goes
      cases goes
      refine sound.setCall trivial (fun _ => raises i ?_) known
      simp [RunWrites.raises, call]
    | true =>
      cases n with
      | zero =>
        simp only [RunWrites.step, call] at goes
        cases goes
        refine sound.issue known 1 (fun none => raises i ?_) ?_
        · simp [RunWrites.raises, call, none]
        · intro d current _
          have executed : s.executedOn i = some c := by simp [executedOn, call]
          refine ⟨commits d (by simp [RunWrites.commits, executed, current]), ?_⟩
          rcases steady c executed d current with rfl | row
          · exact stage.2 current
          · exact Or.inl row
      | succ n =>
        simp only [RunWrites.step, call] at goes
        cases goes
        exact sound.setCall stage (by simp) known
  | idle | starting | waiting | timedOut | connecting | returned | raised => simp [RunWrites.step, call] at goes

theorem Sound.step {act : Act} {s' : RunWrites} (sound : s.Sound) (orderly : s.Orderly act)
    (goes : s.step act = some s') : s'.Sound := by
  have raises := orderly.2.1
  cases act with
  | report entry =>
    obtain ⟨ordered, ⟨⟩⟩ := Option.ite_none_right_eq_some.mp goes
    exact sound.report ordered
  | call i =>
    obtain ⟨⟨known, -⟩, ⟨⟩⟩ := Option.ite_none_right_eq_some.mp goes
    have called : (s.setCall i (.starting .first)).Sound := sound.setCall trivial (by simp) known
    exact called.expect _
  | begins i =>
    cases call : s.calls i with
    | starting a =>
      simp only [RunWrites.step, call] at goes
      cases goes
      refine sound.issue (sound.called call (by simp)) 0 (fun none => raises i ?_) (by simp)
      simp [RunWrites.raises, none]
    | idle | waiting | answered | timedOut | connecting | returned | raised => simp [RunWrites.step, call] at goes
  | work c ok => exact sound.work orderly.1 goes
  | resume i => exact sound.resume orderly goes
  | expire i =>
    cases current : (s.calls i).current with
    | none => simp [RunWrites.step, current] at goes
    | some a =>
      have known : i < s.reports.length := by
        refine sound.called rfl ?_
        intro idle
        simp [idle, GuardCall.current] at current
      cases a with
      | first =>
        simp only [RunWrites.step, current] at goes
        cases goes
        exact sound.setCall trivial (by simp) known
      | second =>
        simp only [RunWrites.step, current] at goes
        cases goes
        refine sound.setCall trivial (fun _ => raises i ?_) known
        simp [RunWrites.raises, current]
  | reconnect i =>
    obtain ⟨⟨call, -⟩, taken⟩ := Option.ite_none_right_eq_some.mp goes
    have known := sound.called call (by simp)
    by_cases same : s.db = s.expects i
    · rw [if_pos same] at taken
      cases taken
      refine (sound.abandon (some i)).setCall trivial (by simp) ?_
      unfold RunWrites.abandon
      split <;> exact known
    · rw [if_neg same] at taken
      cases taken
      exact sound.setCall trivial (by simp) known
  | connect i =>
    obtain ⟨⟨call, -⟩, ⟨⟩⟩ := Option.ite_none_right_eq_some.mp goes
    exact sound.connected.setCall trivial (by simp) (sound.called call (by simp))
  | reconnectFails i =>
    have revocable := raises i rfl
    cases call : s.calls i with
    | timedOut =>
      simp only [RunWrites.step, call] at goes
      cases goes
      exact sound.setCall trivial (fun _ => revocable) (sound.called call (by simp))
    | connecting =>
      simp only [RunWrites.step, call] at goes
      cases goes
      exact (sound.lock none).setCall trivial (fun _ => revocable) (sound.called call (by simp))
    | idle | starting | waiting | answered | returned | raised => simp [RunWrites.step, call] at goes
  | otherStatement place =>
    obtain ⟨c, current, rfl⟩ := Option.map_eq_some_iff.mp goes
    exact sound.queue (sound.live c current).1 none (by simp) (by simp) (by simp)
  | otherCommit =>
    obtain ⟨c, current, rfl⟩ := Option.map_eq_some_iff.mp goes
    exact sound.queue (sound.live c current).1 none (by simp) (fun _ _ => orderly.2.2.1 c current) (by simp)
  | otherReconnect =>
    obtain ⟨-, ⟨⟩⟩ := Option.ite_none_right_eq_some.mp goes
    exact sound.abandon none
  | otherConnect =>
    obtain ⟨-, ⟨⟩⟩ := Option.ite_none_right_eq_some.mp goes
    exact sound.connected
  | otherReconnectFails =>
    obtain ⟨-, ⟨⟩⟩ := Option.ite_none_right_eq_some.mp goes
    exact sound.lock none

theorem Reach.sound (reach : Reach Orderly s) : s.Sound :=
  Runs.Reach.invariant (I := fun s => s.Sound) sound_create (fun _ _ _ sound orderly goes => sound.step orderly goes) reach

theorem last_of_rising {l : List Nat} {x : Nat} (rising : l.Pairwise (· ≤ ·)) (last : l.getLast? = some x) :
    ∀ y ∈ l, y ≤ x := by
  obtain ⟨init, rfl⟩ := List.getLast?_eq_some_iff.mp last
  intro y member
  rcases List.mem_append.mp member with before | here
  · exact (List.pairwise_append.mp rising).2.2 y before x (List.mem_singleton_self x)
  · exact (List.mem_singleton.mp here).le

/-- Rising lists with the same members end alike. -/
theorem getLast_of_rising {a b : List Nat} (ra : a.Pairwise (· ≤ ·)) (rb : b.Pairwise (· ≤ ·))
    (same : ∀ i, i ∈ a ↔ i ∈ b) : a.getLast? = b.getLast? := by
  cases lastA : a.getLast? with
  | none =>
    have empty : b = [] := by
      rw [List.getLast?_eq_none_iff.mp lastA] at same
      exact List.eq_nil_iff_forall_not_mem.mpr fun i member => by simpa using (same i).mpr member
    rw [empty]
    rfl
  | some x =>
    have member := (same x).mp (List.mem_of_getLast? lastA)
    obtain ⟨y, lastB⟩ := Option.ne_none_iff_exists'.mp
      (fun none => List.ne_nil_of_mem member (List.getLast?_eq_none_iff.mp none))
    have upper := last_of_rising ra lastA y ((same y).mpr (List.mem_of_getLast? lastB))
    have lower := last_of_rising rb lastB x member
    rw [lastB, Nat.le_antisymm upper lower]

/-- With nothing pending the reports whose upsert was committed are those not given up on. -/
theorem Sound.rows_kept (sound : s.Sound) (quiet : s.Quiet) : i ∈ s.rows ↔ i ∈ s.kept := by
  simp only [kept, List.mem_filter, List.mem_range, decide_eq_true_eq]
  constructor
  · intro row
    exact ⟨sound.known i (Or.inl row), fun raised => (sound.raised i raised).1 row⟩
  · rintro ⟨known, kept⟩
    rcases quiet.1 i known with raised | ⟨a, returned⟩
    · exact absurd raised kept
    · have stage := sound.stage i
      rwa [returned] at stage

theorem Sound.followsReports (sound : s.Sound) : s.FollowsReports := by
  constructor
  · intro quiet
    have rising : s.kept.Pairwise (· ≤ ·) := (List.pairwise_le_range).filter _
    rw [row, getLast_of_rising sound.sorted rising fun i => sound.rows_kept quiet]
  · refine List.Pairwise.filterMap _ ?_ sound.sorted
    intro i j ordered before inBefore after inAfter final recording
    obtain ⟨e, at_i, rfl⟩ := Option.map_eq_some_iff.mp inBefore
    obtain ⟨e', at_j, rfl⟩ := Option.map_eq_some_iff.mp inAfter
    have zero := sound.first j e' at_j recording
    have same : i = j := by omega
    subst same
    rw [at_j] at at_i
    cases at_i
    exact final recording

/-- In every orderly run the row follows the reports. -/
theorem Reach.follows_reports (reach : Reach Orderly s) : s.FollowsReports := reach.sound.followsReports

/-- The report that the run is recording, and what became of it. -/
def recordingReport : RunEntry := ⟨.recording, none, 0, some "run.sc16", none⟩
def recordedReport : RunEntry := ⟨.recorded, none, 0, some "run.sc16", none⟩

/-- The first write is stuck at its statement and retried on a fresh connection. -/
def stuckUpsert : List Act :=
  [.report recordingReport, .call 0, .begins 0, .expire 0, .reconnect 0, .connect 0]

/-- The corpse's statement is executed late and rolled back by its close. -/
def corpseCloses : List Act := [.work 0 true, .work 0 true]

theorem Reach.follows_reports_stuckUpsert :
    ∃ s, Reach Orderly s ∧ s.row = some recordedReport ∧ s.calls 0 = .returned .second ∧ s.FollowsReports := by
  have goes : (Runs.follow step create (stuckUpsert ++ ([.begins 0, .work 1 true, .resume 0, .work 1 true, .resume 0,
      .report recordedReport, .call 1, .begins 1, .work 1 true, .resume 1, .work 1 true, .resume 1] : List Act) ++
      corpseCloses)).map (fun s => (s.row, s.calls 0)) = some (some recordedReport, .returned .second) := by
    decide +kernel
  obtain ⟨s, taken, same⟩ := Option.map_eq_some_iff.mp goes
  obtain ⟨row, returned⟩ := Prod.mk.inj same
  have reach : Reach Orderly s := Runs.Reach.start.follow (by decide +kernel) taken
  exact ⟨s, reach, row, returned, Reach.follows_reports reach⟩

/-- The retry comes to the fresh connection behind the later report's write. -/
theorem follows_reports_fails : ¬ ∀ s, Reach (fun _ _ => True) s → s.FollowsReports := by
  intro claim
  have goes : (Runs.follow step create (stuckUpsert ++ ([.report recordedReport, .call 1, .begins 1, .begins 0,
      .work 1 true, .work 1 true, .resume 1, .resume 0, .work 1 true, .work 1 true, .resume 1, .resume 0] : List Act) ++
      corpseCloses)).map (fun s => s.history) = some [.recorded, .recording] := by
    decide +kernel
  obtain ⟨s, taken, back⟩ := Option.map_eq_some_iff.mp goes
  have forward := (claim s (Runs.Reach.of_follow taken)).2
  rw [back] at forward
  simp at forward

end RunWrites

end RFObserver
