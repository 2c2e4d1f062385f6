-- SUMMARY: When a data type that starves is on the alarm list, and how it can be missed.
import Brainzgraphinator.Lifecycle.Serving

/-!
# Starvation

An incomplete data type starves if it has no consumer, or if nothing of it was ever settled
while all others are complete. The alarm sees it by way of the message counts, the last
message times and the start of the watch (`Vigilant`), and misses it where a recovery or a
close leaves these misleading (`Alerted`).
-/

namespace Brainzgraphinator

namespace Lifecycle

open Transport

variable {timing : Timing} {s s' : Lifecycle} {e : Event}

/-- The alarm is of use without a watch, or not needed. -/
def Seen (s : Lifecycle) : Prop := s.trafficSeen = true ∨ s.allCompleted = true

/-- What the alarm relies on. -/
structure Alerted (s : Lifecycle) (e : Event) : Prop extends Serving s e where
  /-- A recovery that registers a consumer of a type stamps its last message time: there
  have been messages. -/
  recovers : ∀ c q t rest pending count, s.checker = .consuming c q t rest pending →
    e = .checker .success count → 0 < s.messageCounts t
  /-- A recovery that found all queues empty leaves no watch. -/
  findsNothing : ∀ c count, s.checker = .closingTempConnection c → e = .checker .success count → s.Seen
  /-- Nor does a timer that has closed the connection. -/
  closes : ∀ id p reply t, e = .task id reply → (s.tasks id).pc = .closing p → Closes s.toTransport p reply t →
    s.checker.idle = true → s.consumerRecoveryRequested = false → s.Seen
  /-- Without a watch, a record makes a type incomplete again. -/
  delivers : ∀ t valid, e = .deliver t (.record valid) → s.consumerWatchStartedAt = 0 → s.registeredAt ≠ none →
    s.checker.idle = true → s.consumerRecoveryRequested = false → s.trafficSeen = true

structure Vigilant (s : Lifecycle) : Prop where
  served : s.Served
  now : 0 < s.now
  started : 0 ≤ s.consumerWatchStartedAt ∧ s.consumerWatchStartedAt ≤ s.now
  counts : ∀ t, s.messageCounts t = 0 → s.lastMessageTime t ≤ 0
  tags : ∀ t, s.consumerTags t ≠ none → 0 < s.consumerWatchStartedAt
  transport : 0 < s.consumerWatchStartedAt → s.hasTransport = true
  recovering : s.checker.adopted ≠ none → s.hasTransport = true → 0 < s.consumerWatchStartedAt
  starting : ∀ c t rest, s.main = .consuming c t rest → s.hasTransport = true → 0 < s.consumerWatchStartedAt
  registered : s.checker.idle = true → s.consumerRecoveryRequested = false → 0 < s.consumerWatchStartedAt →
    ∀ r, s.registeredAt = some r → s.consumerWatchStartedAt ≤ r
  unwatched : s.checker.idle = true → s.consumerRecoveryRequested = false → s.consumerWatchStartedAt = 0 →
    s.registeredAt ≠ none → s.Seen

theorem vigilant_init {now : Int} (hnow : 0 < now) : Vigilant { now := now } where
  served := served_init now
  now := hnow
  started := ⟨Int.le_refl 0, Int.le_of_lt hnow⟩
  counts _ _ := Int.le_refl 0
  tags _ ht := absurd rfl ht
  transport h := absurd h (Int.lt_irrefl 0)
  recovering h := absurd rfl h
  starting := nofun
  registered _ _ h := absurd h (Int.lt_irrefl 0)
  unwatched _ _ _ h := absurd rfl h

/-! ## The watch -/

inductive WatchStep (s : Lifecycle) (e : Event) (t : Transport) : Prop
  | keeps : t.consumerWatchStartedAt = s.consumerWatchStartedAt → t.registeredAt = s.registeredAt →
      (s.hasTransport = true → t.hasTransport = true) →
      (t.hasTransport = true → s.hasTransport = true ∨ s.main.opening = true ∨ e.ofChecker = true) →
      WatchStep s e t
  | registers {u : EntityType} {q : Nat} : HearsConsume s e u q → t = s.registerConsumer s.now u q → WatchStep s e t
  | starts : t.consumerWatchStartedAt = s.now → t.registeredAt = s.registeredAt → t.hasTransport = true →
      (s.main.opening = true ∨ ∃ c t pending, s.checker = .inspecting c t [] pending) → WatchStep s e t
  | ends {p : ClosePc} {reply : Reply} {t' : Transport} : HearsClose s e p reply → Closes s.toTransport p reply t' →
      t.consumerWatchStartedAt = 0 → t.registeredAt = s.registeredAt → t.hasTransport = false → WatchStep s e t

theorem Served.watchStep (h : s.Served) {t : Transport} (hstep : TransportStep s e t) : WatchStep s e t := by
  have hsame : ∀ {t : Transport}, t.consumerWatchStartedAt = s.consumerWatchStartedAt →
      t.registeredAt = s.registeredAt → t.hasTransport = s.hasTransport → WatchStep s e t :=
    fun hwatch hregistered htransport => .keeps hwatch hregistered (fun hs => htransport.trans hs)
      fun ht => .inl (htransport.symm.trans ht)
  cases hstep with
  | same | request | reset _ _ _ | tempChannelClosed _ _ | tempConnectionClosed _ _ => exact hsame rfl rfl rfl
  | cancel _ _ =>
    rw [forgetConsumer]
    split <;> exact hsame rfl rfl rfl
  | @closeChannel _ c c₀ _ hconn =>
    refine hsame rfl rfl ?_
    simp [hasTransport, hconn]
  | closed hhears hcloses =>
    have hgone := hcloses.hasTransport
    refine .ends hhears hcloses rfl ?_ hgone
    cases hcloses <;> rfl
  | dropped hhears _ _ hcloses =>
    have hgone := hcloses.hasTransport
    refine .ends hhears hcloses rfl ?_ hgone
    cases hcloses <;> rfl
  | connect _ hpc => exact .keeps rfl rfl (fun _ => rfl) fun _ => .inr (.inl (by rw [hpc]; rfl))
  | openChannel _ hpc =>
    exact .keeps rfl rfl (fun _ => by simp [hasTransport]) fun _ => .inr (.inl (by rw [hpc]; rfl))
  | @startWatch _ c _ _ hpc =>
    have hopening : s.main.opening = true := by rw [hpc]; rfl
    have hconn := (h.opening hopening).connection
    rw [hpc] at hconn
    refine .starts rfl rfl ?_ (.inl hopening)
    simp only [Transport.startWatch, hasTransport, hconn]
    rfl
  | register hhears _ => exact .registers hhears rfl
  | adopt _ hpc _ => exact .starts rfl rfl rfl (.inr ⟨_, _, _, hpc⟩)
  | adoptFailed he _ => exact .keeps rfl rfl (fun _ => rfl) fun _ => .inr (.inr he)

theorem TablesStep.now (h : TablesStep s s' e) : s.now ≤ s'.now := by
  cases h with
  | same hkeeps | forgets hkeeps _ | declares hkeeps _ | completes _ hkeeps | uncompletes hkeeps
  | recovers _ hkeeps | shutdown hkeeps => exact Int.le_of_eq hkeeps.now.symm
  | tick hkeeps =>
    rw [hkeeps.now]
    dsimp only
    omega
  | @settles _ outcome _ hkeeps => cases outcome <;> exact Int.le_of_eq hkeeps.now.symm

theorem TablesStep.counts (h : TablesStep s s' e) (hcounts : ∀ t, s.messageCounts t = 0 → s.lastMessageTime t ≤ 0)
    (hrecovers : ∀ c q t rest pending count, s.checker = .consuming c q t rest pending →
      e = .checker .success count → 0 < s.messageCounts t) :
    ∀ t, s'.messageCounts t = 0 → s'.lastMessageTime t ≤ 0 := by
  intro t ht
  cases h with
  | same hkeeps | tick hkeeps | shutdown hkeeps | forgets hkeeps _ | declares hkeeps _ | completes _ hkeeps
  | uncompletes hkeeps =>
    rw [hkeeps.messageCounts] at ht
    rw [hkeeps.lastMessageTime]
    exact hcounts t ht
  | @recovers c q count u rest pending hpc hkeeps =>
    rw [hkeeps.messageCounts] at ht
    rw [hkeeps.lastMessageTime]
    have hne : t ≠ u := by
      intro heq
      have hpos := hrecovers c q u rest pending count hpc rfl
      rw [heq] at ht
      exact absurd ht (Nat.ne_of_gt hpos)
    exact (Function.update_of_ne hne _ s.lastMessageTime).trans_le (hcounts t ht)
  | @settles u outcome houtcome hkeeps =>
    rw [hkeeps.messageCounts] at ht
    rw [hkeeps.lastMessageTime]
    have hsettled : (s.settled u outcome).messageCounts = Function.update s.messageCounts u (s.messageCounts u + 1) ∧
        (s.settled u outcome).lastMessageTime = Function.update s.lastMessageTime u s.now := by
      cases outcome with
      | failed => exact absurd rfl houtcome
      | processed | skipped => exact ⟨rfl, rfl⟩
    rw [hsettled.1] at ht
    rw [hsettled.2]
    have hne : t ≠ u := by
      intro heq
      rw [heq, Function.update_self] at ht
      exact Nat.succ_ne_zero _ ht
    rw [Function.update_of_ne hne] at ht ⊢
    exact hcounts t ht

theorem trafficSeen_iff : s.trafficSeen = true ↔ ∃ t, 0 < s.messageCounts t := by
  simp only [trafficSeen, List.any_eq_true, decide_eq_true_eq]
  exact ⟨fun ⟨t, _, ht⟩ => ⟨t, ht⟩, fun ⟨t, ht⟩ => ⟨t, mem_musicbrainzDataTypes t, ht⟩⟩

theorem allCompleted_iff : s.allCompleted = true ↔ ∀ t, s.completedFiles t = true := by
  simp only [allCompleted, List.all_eq_true]
  exact ⟨fun h t => h t (mem_musicbrainzDataTypes t), fun h t _ => h t⟩

/-- Traffic stays seen; all types stay complete until a record is delivered or a recovery
finds a backlog. -/
theorem TablesStep.seen (h : TablesStep s s' e) (hseen : s.Seen)
    (hdelivers : ∀ t valid, e = .deliver t (.record valid) → s.trafficSeen = true)
    (hrecovers : ∀ c q t rest pending, s.checker ≠ .consuming c q t rest pending) : s'.Seen := by
  have htraffic : s'.messageCounts = s.messageCounts → s.trafficSeen = true → s'.Seen := by
    intro heq hseen
    refine .inl ?_
    rw [trafficSeen, heq]
    exact hseen
  have hkept : s'.messageCounts = s.messageCounts → s'.completedFiles = s.completedFiles → s'.Seen := by
    intro hcounts hcompleted
    rcases hseen with hseen | hall
    · exact htraffic hcounts hseen
    · refine .inr ?_
      rw [allCompleted, hcompleted]
      exact hall
  cases h with
  | same hkeeps | tick hkeeps | shutdown hkeeps | forgets hkeeps _ | declares hkeeps _ =>
    exact hkept hkeeps.messageCounts hkeeps.completedFiles
  | @completes t _ _ hkeeps =>
    rcases hseen with hseen | hall
    · exact htraffic hkeeps.messageCounts hseen
    · refine .inr (allCompleted_iff.mpr fun u => ?_)
      rw [hkeeps.completedFiles, complete]
      by_cases hu : u = t
      · rw [hu]
        exact Function.update_self t true s.completedFiles
      · exact (Function.update_of_ne hu true s.completedFiles).trans (allCompleted_iff.mp hall u)
  | uncompletes hkeeps => exact htraffic hkeeps.messageCounts (hdelivers _ _ rfl)
  | recovers hpc _ => exact absurd hpc (hrecovers _ _ _ _ _)
  | @settles t outcome houtcome hkeeps =>
    refine .inl (trafficSeen_iff.mpr ⟨t, ?_⟩)
    rw [hkeeps.messageCounts]
    cases outcome with
    | failed => exact absurd rfl houtcome
    | processed | skipped => simp [settled]

/-! ## The invariant is kept -/

theorem Vigilant.present (h : s.Vigilant) (hne : s.checker ≠ .absent) : s.main.opening = false := by
  rw [Bool.eq_false_iff]
  exact fun hopening => hne (h.served.phases.startup (MainPc.startup_of_opening hopening))

theorem Vigilant.unstarted (h : s.Vigilant) (hgone : s.hasTransport = false) : s.consumerWatchStartedAt = 0 := by
  by_contra hne
  have hpos : 0 < s.consumerWatchStartedAt := by
    have := h.started.1
    omega
  cases hgone.symm.trans (h.transport hpos)

theorem Vigilant.hearsConsume (h : s.Vigilant) (hserving : s.Serving e) {t : EntityType} {q : Nat}
    (hhears : HearsConsume s e t q) : 0 < s.consumerWatchStartedAt := by
  have htransport := hserving.consumes t q hhears
  cases hhears with
  | main hpc => exact h.starting _ _ _ hpc htransport
  | checker hpc => exact h.recovering (by rw [hpc]; exact nofun) htransport

theorem Vigilant.tags_step (h : s.Vigilant) (hserving : s.Serving e) {t : Transport} (hstep : TransportStep s e t)
    {u : EntityType} (hu : t.consumerTags u ≠ none) (htransport : t.hasTransport = true) :
    0 < t.consumerWatchStartedAt := by
  cases h.served.watchStep hstep with
  | keeps hsame _ _ _ =>
    rw [hsame]
    rcases hstep.registered hu with hold | ⟨q, hhears, _⟩
    · rw [hold] at hu
      exact h.tags u hu
    · exact h.hearsConsume hserving hhears
  | registers hhears heq =>
    rw [heq]
    exact h.hearsConsume hserving hhears
  | starts hnow _ _ _ =>
    rw [hnow]
    exact h.now
  | ends _ _ _ _ hgone => cases hgone.symm.trans htransport

/-- A watch that runs goes on as long as there is a transport, but for the checker. -/
theorem Vigilant.watch_step (h : s.Vigilant) {t : Transport} (hwatch : WatchStep s e t)
    (hold : s.hasTransport = true → 0 < s.consumerWatchStartedAt) (hopening : s.main.opening = false)
    (he : e.ofChecker = false) (htransport : t.hasTransport = true) : 0 < t.consumerWatchStartedAt := by
  cases hwatch with
  | keeps hsame _ _ hback =>
    rw [hsame]
    rcases hback htransport with hs | hopening' | he'
    · exact hold hs
    · cases hopening.symm.trans hopening'
    · cases he.symm.trans he'
  | registers _ heq =>
    rw [heq] at htransport ⊢
    exact hold htransport
  | starts hnow _ _ _ =>
    rw [hnow]
    exact h.now
  | ends _ _ _ _ hgone => cases hgone.symm.trans htransport

theorem Vigilant.recovering_step (h : s.Vigilant) (hstep : s.step timing e = some s')
    (hadopted : s'.checker.adopted ≠ none) (htransport : s'.hasTransport = true) :
    0 < s'.consumerWatchStartedAt := by
  rcases (turn_step hstep).checker.registering hadopted with ⟨c, heq⟩ | ⟨hold, he | heq | ⟨u, q, heq⟩⟩
  · rw [heq]
    exact h.now
  · refine h.watch_step (h.served.watchStep (transport_step h.served.phases hstep)) (h.recovering hold) ?_ he htransport
    exact h.present fun habsent => hold (by rw [habsent]; rfl)
  · rw [heq] at htransport ⊢
    exact h.recovering hold htransport
  · rw [heq] at htransport ⊢
    exact h.recovering hold htransport

theorem Vigilant.starting_step (h : s.Vigilant) (hstep : s.step timing e = some s') {c : Nat} {t : EntityType}
    {rest : List EntityType} (hpc : s'.main = .consuming c t rest) (htransport : s'.hasTransport = true) :
    0 < s'.consumerWatchStartedAt := by
  have hmain := (turn_step hstep).main
  rw [hpc] at hmain
  rcases hmain.consuming with ⟨u, _, heq, _⟩ | ⟨u, rest', hold, heq⟩ | hold
  · rw [heq]
    exact h.now
  · rw [heq] at htransport ⊢
    exact h.starting c u rest' hold htransport
  · have habsent : s.checker = .absent := h.served.phases.startup (by rw [hold]; rfl)
    have he : e.ofChecker = false := by
      rw [Bool.eq_false_iff]
      exact fun he => checker_ne_absent hstep he habsent
    exact h.watch_step (h.served.watchStep (transport_step h.served.phases hstep)) (h.starting c t rest hold)
      (by rw [hold]; rfl) he htransport

theorem Vigilant.registered_step (h : s.Vigilant) (hstep : s.step timing e = some s')
    (hidle : s'.checker.idle = true) (hclear : s'.consumerRecoveryRequested = false)
    (hpos : 0 < s'.consumerWatchStartedAt) {r : Int} (hr : s'.registeredAt = some r) :
    s'.consumerWatchStartedAt ≤ r := by
  have hwatch := h.served.watchStep (transport_step h.served.phases hstep)
  have hregisters : ∀ {u q}, s'.toTransport = s.registerConsumer s.now u q → s'.consumerWatchStartedAt ≤ r := by
    intro u q heq
    rw [heq] at hr ⊢
    cases hr
    exact h.started.2
  cases h.served.rests hstep hidle hclear with
  | stays hold hset hsame =>
    rcases hsame with he | heq
    · cases hwatch with
      | keeps hsame hregistered _ _ =>
        rw [hsame] at hpos ⊢
        exact h.registered hold hset hpos r (hregistered.symm.trans hr)
      | registers _ heq => exact hregisters heq
      | starts _ hregistered _ hwhy =>
        rcases hwhy with hopening | ⟨c, t, pending, hpc⟩
        · cases ((h.served.opening hopening).registeredAt.symm.trans hregistered.symm).trans hr
        · rw [hpc] at hold
          cases hold
      | ends _ _ hzero _ _ =>
        rw [hzero] at hpos
        cases hpos
    · rw [heq] at hpos hr ⊢
      exact h.registered hold hset hpos r hr
  | recovered _ _ heq => exact hregisters heq
  | foundNothing hpc he =>
    have hgone : s.hasTransport = false := h.served.phases.unplugged (by rw [hpc]; rfl)
    have hzero := h.unstarted hgone
    cases hwatch with
    | keeps hsame _ _ _ =>
      rw [hsame, hzero] at hpos
      cases hpos
    | registers _ heq => exact hregisters heq
    | starts _ _ _ hwhy =>
      rcases hwhy with hopening | ⟨c, t, pending, hpc'⟩
      · cases (h.present (by rw [hpc]; exact nofun)).symm.trans hopening
      · cases hpc.symm.trans hpc'
    | ends _ _ hzero _ _ =>
      rw [hzero] at hpos
      cases hpos

theorem Vigilant.unwatched_step (h : s.Vigilant) (hok : s.Alerted e) (hstep : s.step timing e = some s')
    (hidle : s'.checker.idle = true) (hclear : s'.consumerRecoveryRequested = false)
    (hzero : s'.consumerWatchStartedAt = 0) (hregistered : s'.registeredAt ≠ none) : s'.Seen := by
  have htables := (turn_step hstep).tables
  have hwatch := h.served.watchStep (transport_step h.served.phases hstep)
  have hregisters : ∀ {u q}, HearsConsume s e u q → s'.toTransport ≠ s.registerConsumer s.now u q := by
    intro u q hhears heq
    have hpos := h.hearsConsume hok.toServing hhears
    rw [heq] at hzero
    exact absurd hzero (Int.ne_of_gt hpos)
  cases h.served.rests hstep hidle hclear with
  | stays hold hset hsame =>
    have hnot : ∀ c q t rest pending, s.checker ≠ .consuming c q t rest pending := by
      intro c q t rest pending hpc
      rw [hpc] at hold
      cases hold
    have hunwatched : s.consumerWatchStartedAt = 0 → s.registeredAt ≠ none → s'.Seen := fun hw hr =>
      htables.seen (h.unwatched hold hset hw hr)
        (fun t valid he => hok.delivers t valid he hw hr hold hset) hnot
    rcases hsame with he | heq
    · cases hwatch with
      | keeps hsame hr _ _ => exact hunwatched (hsame.symm.trans hzero) (hr ▸ hregistered)
      | registers hhears heq => exact absurd heq (hregisters hhears)
      | starts hnow _ _ _ =>
        rw [hnow] at hzero
        exact absurd hzero (Int.ne_of_gt h.now)
      | ends hhears hcloses _ _ _ =>
        cases hhears with
        | main hpc =>
          have hmain := h.served.main
          rw [hpc] at hmain
          cases hmain
        | dropping _ | failing _ => cases he
        | task hpc _ =>
          exact htables.seen (hok.closes _ _ _ _ rfl hpc hcloses hold hset) nofun hnot
    · rw [heq] at hzero hregistered
      exact hunwatched hzero hregistered
  | foundNothing hpc he =>
    subst he
    exact htables.seen (hok.findsNothing _ _ hpc rfl) nofun fun c q t rest pending hpc' => by cases hpc.symm.trans hpc'
  | recovered hpc he heq =>
    subst he
    exact absurd heq (hregisters (.checker hpc))

theorem Vigilant.step (h : s.Vigilant) (hok : s.Alerted e) (hstep : s.step timing e = some s') : s'.Vigilant := by
  have hserving := hok.toServing
  have hserved := h.served.step hserving hstep
  have htransport := transport_step h.served.phases hstep
  have hwatch := h.served.watchStep htransport
  have hturn := turn_step hstep
  have hnow : s.now ≤ s'.now := hturn.tables.now
  have htransport' : 0 < s'.consumerWatchStartedAt → s'.hasTransport = true := by
    intro hpos
    cases hwatch with
    | keeps hsame _ hkept _ =>
      rw [hsame] at hpos
      exact hkept (h.transport hpos)
    | registers _ heq =>
      rw [heq] at hpos ⊢
      exact h.transport hpos
    | starts _ _ htransport _ => exact htransport
    | ends _ _ hzero _ _ =>
      rw [hzero] at hpos
      cases hpos
  refine ⟨hserved, Int.lt_of_lt_of_le h.now hnow, ?_, hturn.tables.counts h.counts hok.recovers, ?_, htransport',
    h.recovering_step hstep, fun c t rest hpc => h.starting_step hstep hpc, ?_, h.unwatched_step hok hstep⟩
  · have hstarted := h.started
    cases hwatch with
    | keeps hsame _ _ _ => rw [hsame]; omega
    | registers _ heq =>
      rw [heq]
      simp only [registerConsumer]
      omega
    | starts hsame _ _ _ =>
      have hpos := h.now
      rw [hsame]
      omega
    | ends _ _ hzero _ _ =>
      have hpos := h.now
      rw [hzero]
      omega
  · exact fun t ht => h.tags_step hserving htransport ht (hserved.books.transport t ht)
  · exact fun hidle hclear hpos r hr => h.registered_step hstep hidle hclear hpos hr

theorem vigilant_of_run {now : Int} {es : List Event} (hnow : 0 < now)
    (h : Runs.Run (step timing) Alerted { now := now } es s) : s.Vigilant :=
  h.invariant (vigilant_init hnow) fun hvigilant hok hstep => hvigilant.step hok hstep

/-! ## The alarm -/

/-- The message count is that of the deliveries settled as processed or skipped. -/
theorem messageCounts_eq_zero {ok : Lifecycle → Event → Prop} {now : Int} {es : List Event}
    (h : Runs.Run (step timing) ok { now := now } es s) {t : EntityType}
    (hnone : ∀ outcome, .settled t outcome ∈ es → outcome = .failed) : s.messageCounts t = 0 := by
  induction h with
  | nil => rfl
  | @snoc es e s s' _ _ hstep ih =>
    have hold : s.messageCounts t = 0 := ih fun outcome hmem => hnone outcome (List.mem_append_left _ hmem)
    cases (turn_step hstep).tables with
    | same hkeeps | tick hkeeps | shutdown hkeeps | forgets hkeeps _ | declares hkeeps _ | completes _ hkeeps
    | uncompletes hkeeps | recovers _ hkeeps =>
      rw [hkeeps.messageCounts]
      exact hold
    | @settles u outcome houtcome hkeeps =>
      have hne : t ≠ u := by
        intro heq
        subst heq
        exact houtcome (hnone outcome (List.mem_append_right _ List.mem_cons_self))
      rw [hkeeps.messageCounts]
      cases outcome with
      | failed => exact absurd rfl houtcome
      | processed | skipped => exact (Function.update_of_ne hne _ s.messageCounts).trans hold

theorem allButOneComplete_of_siblings {t : EntityType} (h : ∀ u, u ≠ t → s.completedFiles u = true) :
    s.allButOneComplete = true := by
  have hothers : musicbrainzDataTypes.countP (fun u => u ≠ t) ≤ musicbrainzDataTypes.countP s.completedFiles :=
    List.countP_mono_left fun u _ hu => h u (of_decide_eq_true hu)
  have hcount : musicbrainzDataTypes.length - 1 ≤ musicbrainzDataTypes.countP fun u => u ≠ t := by
    cases t <;> decide
  exact decide_eq_true (Nat.le_trans hcount hothers)

/-- A type without a consumer is on the list as soon as there is traffic or the grace is over. -/
theorem mem_consumerAlarmTypes {t : EntityType} (hincomplete : s.completedFiles t = false)
    (hawake : s.trafficSeen = true ∨ s.graceExpired timing = true)
    (hstarved : s.consumerTags t = none ∨
      s.graceExpired timing = true ∧ s.allButOneComplete = true ∧ s.lastMessageTime t ≤ 0) :
    t ∈ s.consumerAlarmTypes timing := by
  have hsilent : ¬(!s.trafficSeen && !s.graceExpired timing) = true := by
    rcases hawake with h | h <;> simp [h]
  rw [consumerAlarmTypes, if_neg hsilent, List.mem_filter]
  refine ⟨mem_musicbrainzDataTypes t, ?_⟩
  rcases hstarved with hnone | ⟨hgrace, hall, hlast⟩
  · simp [hincomplete, hnone]
  · simp [hincomplete, hgrace, hall, hlast]

theorem Vigilant.graceExpired (h : s.Vigilant) (hidle : s.checker.idle = true)
    (hclear : s.consumerRecoveryRequested = false) {r : Int} (hr : s.registeredAt = some r)
    (hdue : timing.startupIdleTimeout ≤ s.now - r) (hpos : 0 < s.consumerWatchStartedAt) :
    s.graceExpired timing = true := by
  have hle := h.registered hidle hclear hpos r hr
  simp only [Lifecycle.graceExpired, Bool.and_eq_true, decide_eq_true_eq]
  omega

theorem Vigilant.alarmed (h : s.Vigilant) (hidle : s.checker.idle = true)
    (hclear : s.consumerRecoveryRequested = false) {r : Int} (hr : s.registeredAt = some r)
    (hdue : timing.startupIdleTimeout ≤ s.now - r) {t : EntityType} (hincomplete : s.completedFiles t = false)
    (hstarved : s.consumerTags t = none ∨
      (∀ u, u ≠ t → s.completedFiles u = true) ∧ s.messageCounts t = 0) : t ∈ s.consumerAlarmTypes timing := by
  by_cases hpos : 0 < s.consumerWatchStartedAt
  · have hexpired := h.graceExpired hidle hclear hr hdue hpos
    refine mem_consumerAlarmTypes hincomplete (.inr hexpired) ?_
    rcases hstarved with hnone | ⟨hsiblings, hcount⟩
    · exact .inl hnone
    · exact .inr ⟨hexpired, allButOneComplete_of_siblings hsiblings, h.counts t hcount⟩
  · have hzero : s.consumerWatchStartedAt = 0 := by
      have := h.started.1
      omega
    have hnone : s.consumerTags t = none := by
      by_contra htag
      exact hpos (h.tags t htag)
    refine mem_consumerAlarmTypes hincomplete ?_ (.inl hnone)
    rcases h.unwatched hidle hclear hzero (by rw [hr]; exact nofun) with htraffic | hall
    · exact .inl htraffic
    · cases hincomplete.symm.trans (allCompleted_iff.mp hall t)

/-- What the alarm and the flag are for: the health is bad, and the checker recovers. -/
theorem alarm_acts {t : EntityType} (hgraph : s.graph = true)
    (h : t ∈ s.consumerAlarmTypes timing ∨ s.consumerRecoveryRequested = true) :
    (s.getHealthData timing).status = "unhealthy" ∧ s.checkerWakes timing = s.recoverConsumers := by
  have hstuck : (!(s.consumerAlarmTypes timing).isEmpty || s.consumerRecoveryRequested) = true := by
    rcases h with hmem | hset
    · have hne : s.consumerAlarmTypes timing ≠ [] := List.ne_nil_of_mem hmem
      simp [hne]
    · simp [hset]
  constructor
  · simp only [getHealthData, hgraph, hstuck, Bool.not_true, Bool.false_eq_true, if_false, if_true]
  · rw [checkerWakes]
    split
    · rfl
    · rename_i hclear
      rw [if_pos]
      simpa [hclear] using hstuck

/-- A type that starves is on the alarm list once the grace is over, or a recovery is asked for. -/
theorem starvation_visible {timing : Timing} {now : Int} {es : List Event} {s : Lifecycle} {r : Int} {t : EntityType}
    (hnow : 0 < now) (hrun : Runs.Run (step timing) Alerted { now := now } es s)
    (hgraph : s.graph = true) (hidle : s.checker.idle = true)
    (hr : s.registeredAt = some r) (hdue : timing.startupIdleTimeout ≤ s.now - r)
    (hincomplete : s.completedFiles t = false)
    (hstarved : s.consumerTags t = none ∨ (∀ u, u ≠ t → s.completedFiles u = true) ∧
      ∀ outcome, .settled t outcome ∈ es → outcome = .failed) :
    (t ∈ s.consumerAlarmTypes timing ∨ s.consumerRecoveryRequested = true) ∧
      (s.getHealthData timing).status = "unhealthy" ∧ s.checkerWakes timing = s.recoverConsumers := by
  have hstarved' : s.consumerTags t = none ∨
      (∀ u, u ≠ t → s.completedFiles u = true) ∧ s.messageCounts t = 0 :=
    hstarved.imp_right fun h => ⟨h.1, messageCounts_eq_zero hrun h.2⟩
  have hvisible : t ∈ s.consumerAlarmTypes timing ∨ s.consumerRecoveryRequested = true := by
    by_cases hset : s.consumerRecoveryRequested = true
    · exact .inr hset
    · exact .inl ((vigilant_of_run hnow hrun).alarmed hidle (Bool.not_eq_true _ ▸ hset) hr hdue hincomplete hstarved')
  exact ⟨hvisible, alarm_acts hgraph hvisible⟩

/-- Startup, terminal events and the clock. -/
def Event.calm : Event → Bool
  | .main _ | .tick _ => true
  | .deliver _ message => message.terminal
  | _ => false

theorem alerted_of_calm (he : e.calm = true) (h : s.main.opening = true ∨ s.hasTransport = true) : s.Alerted e where
  running := by constructor <;> rintro rfl <;> cases he
  consumes t q hhears := by
    rcases h with hopening | htransport
    · cases hhears with
      | main hpc => rw [hpc] at hopening; cases hopening
      | checker _ => cases he
    · exact htransport
  recovers c q t rest pending count _ heq := by subst heq; cases he
  findsNothing c count _ heq := by subst heq; cases he
  closes id p reply t heq := by subst heq; cases he
  delivers t valid heq := by subst heq; cases he

/-- Nothing of the labels comes while the other types complete. -/
def siblingsComplete : List Event :=
  List.replicate 12 (.main .success) ++ [.deliver .artists .fileComplete, .deliver .releaseGroups .fileComplete,
    .deliver .releases .fileComplete, .tick 30]

theorem starvation_visible_labels : ∃ s : Lifecycle, s.consumerTags .labels ≠ none ∧
    s.consumerRecoveryRequested = false ∧ .labels ∈ s.consumerAlarmTypes {} := by
  obtain ⟨s, hrun, hgraph, hidle, hr, hdue, hincomplete, hsiblings, htag, hclear⟩ : ∃ s,
      Runs.Run (Runs.guarded (step {}) fun s e => e.calm = true ∧ (s.main.opening = true ∨ s.hasTransport = true))
        (fun _ _ => True) { now := 1 } siblingsComplete s ∧
      s.graph = true ∧ s.checker.idle = true ∧ s.registeredAt = some 1 ∧ (30 : Int) ≤ s.now - 1 ∧
      s.completedFiles .labels = false ∧
      (s.completedFiles .artists = true ∧ s.completedFiles .releaseGroups = true ∧ s.completedFiles .releases = true) ∧
      (s.consumerTags .labels).isSome = true ∧ s.consumerRecoveryRequested = false :=
    Runs.exists_run (by decide +kernel)
  have hrun' : Runs.Run (step {}) Alerted { now := 1 } siblingsComplete s :=
    (Runs.run_of_guarded hrun).mono fun _ _ hcalm => alerted_of_calm hcalm.1 hcalm.2
  have hothers : ∀ u, u ≠ EntityType.labels → s.completedFiles u = true := by
    intro u hu
    cases u with
    | artists => exact hsiblings.1
    | labels => exact absurd rfl hu
    | releaseGroups => exact hsiblings.2.1
    | releases => exact hsiblings.2.2
  have hunsettled : ∀ outcome, Event.settled .labels outcome ∉ siblingsComplete := by
    intro outcome
    cases outcome <;> decide
  have hvisible := (starvation_visible (by decide) hrun' hgraph hidle hr hdue hincomplete
    (.inr ⟨hothers, fun outcome hmem => absurd hmem (hunsettled outcome)⟩)).1
  refine ⟨s, fun hnone => ?_, hclear, hvisible.resolve_right fun hset => ?_⟩
  · rw [hnone] at htag
    cases htag
  · cases hclear.symm.trans hset

/-- A cancel fails, the recovery finds all queues empty and is over: nobody watches. -/
def unwatchedRecovery : List Event :=
  List.replicate 12 (.main .success) ++ [.deliver .artists .fileComplete, .tick 300, .taskWakes 0, .task 0 .timedOut,
    .checkerWakes] ++ List.replicate 10 (.checker .success 0) ++ [.tick 3000]

/-- A cancel fails, the recovery registers the consumers again, and all types but the labels
complete: the labels seem to have had a message. -/
def stampedRecovery : List Event :=
  List.replicate 12 (.main .success) ++ [.deliver .artists .fileComplete, .tick 300, .taskWakes 0, .task 0 .timedOut,
    .checkerWakes] ++ List.replicate 4 (.checker .success 0) ++ List.replicate 13 (.checker .success 1) ++
    [.deliver .artists .fileComplete, .deliver .releaseGroups .fileComplete, .deliver .releases .fileComplete, .tick 200]

/-- No recovery and no close is in progress. -/
def AtRest (s : Lifecycle) : Prop :=
  s.checker = .sleeping ∧ s.main = .running ∧ ∀ id p, (s.tasks id).pc ≠ .closing p

theorem atRest_of_fresh (hphases : s.Phases) (hchecker : s.checker = .sleeping) (hmain : s.main = .running)
    (htasks : ∀ id < s.taskCount, (s.tasks id).pc = .finished ∨ (s.tasks id).pc = .waiting) : s.AtRest := by
  refine ⟨hchecker, hmain, fun id p hpc => ?_⟩
  by_cases hid : id < s.taskCount
  · rcases htasks id hid with heq | heq <;> cases heq.symm.trans hpc
  · cases (hphases.timers.fresh id (Nat.le_of_not_lt hid)).symm.trans hpc

theorem starvation_missed :
    (∃ s, Runs.Run (step {}) (fun _ e => e ≠ .shutdown ∧ e ≠ .mainCancelled) { now := 1 } unwatchedRecovery s ∧
      s.graph = true ∧ s.AtRest ∧ s.registeredAt = some 1 ∧ 30 ≤ s.now - 1 ∧ s.completedFiles .labels = false ∧
      s.consumerTags .labels = none ∧ .labels ∉ s.consumerAlarmTypes {} ∧ s.consumerRecoveryRequested = false) ∧
    ∃ s, Runs.Run (step {}) (fun _ e => e ≠ .shutdown ∧ e ≠ .mainCancelled) { now := 1 } stampedRecovery s ∧
      s.graph = true ∧ s.AtRest ∧ s.registeredAt = some 301 ∧ 30 ≤ s.now - 301 ∧ s.completedFiles .labels = false ∧
      (s.completedFiles .artists = true ∧ s.completedFiles .releaseGroups = true ∧ s.completedFiles .releases = true) ∧
      (∀ outcome, .settled .labels outcome ∉ stampedRecovery) ∧
      .labels ∉ s.consumerAlarmTypes {} ∧ s.consumerRecoveryRequested = false := by
  constructor
  · obtain ⟨s, hrun, hgraph, ⟨hchecker, hmain, htasks⟩, hmissed⟩ : ∃ s,
        Runs.Run (Runs.guarded (step {}) fun _ e => e ≠ .shutdown ∧ e ≠ .mainCancelled) (fun _ _ => True)
          { now := 1 } unwatchedRecovery s ∧
        s.graph = true ∧ (s.checker = .sleeping ∧ s.main = .running ∧
          ∀ id < s.taskCount, (s.tasks id).pc = .finished ∨ (s.tasks id).pc = .waiting) ∧
        s.registeredAt = some 1 ∧ 30 ≤ s.now - 1 ∧ s.completedFiles .labels = false ∧
        s.consumerTags .labels = none ∧ .labels ∉ s.consumerAlarmTypes {} ∧ s.consumerRecoveryRequested = false :=
      Runs.exists_run (by decide +kernel)
    have hrun' := Runs.run_of_guarded hrun
    exact ⟨s, hrun', hgraph, atRest_of_fresh (phases_of_run hrun') hchecker hmain htasks, hmissed⟩
  · obtain ⟨s, hrun, hgraph, ⟨hchecker, hmain, htasks⟩, hr, hdue, hincomplete, hsiblings, hmissed⟩ : ∃ s,
        Runs.Run (Runs.guarded (step {}) fun _ e => e ≠ .shutdown ∧ e ≠ .mainCancelled) (fun _ _ => True)
          { now := 1 } stampedRecovery s ∧
        s.graph = true ∧ (s.checker = .sleeping ∧ s.main = .running ∧
          ∀ id < s.taskCount, (s.tasks id).pc = .finished ∨ (s.tasks id).pc = .waiting) ∧
        s.registeredAt = some 301 ∧ 30 ≤ s.now - 301 ∧ s.completedFiles .labels = false ∧
        (s.completedFiles .artists = true ∧ s.completedFiles .releaseGroups = true ∧ s.completedFiles .releases = true) ∧
        .labels ∉ s.consumerAlarmTypes {} ∧ s.consumerRecoveryRequested = false :=
      Runs.exists_run (by decide +kernel)
    have hrun' := Runs.run_of_guarded hrun
    have hunsettled : ∀ outcome, Event.settled .labels outcome ∉ stampedRecovery := by
      intro outcome
      cases outcome <;> decide
    exact ⟨s, hrun', hgraph, atRest_of_fresh (phases_of_run hrun') hchecker hmain htasks, hr, hdue, hincomplete,
      hsiblings, hunsettled, hmissed⟩

end Lifecycle

end Brainzgraphinator
