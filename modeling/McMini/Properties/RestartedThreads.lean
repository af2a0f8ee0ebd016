import McMini.Properties.ThreadRecords

/-!
# The threads of a restarted process

A thread which comes into `thread_handle_after_dmtcp_restart` reads the mode once, on entry. In any
other than a restart mode it would abort, and the template thread changes the mode. This does not
happen before every recorded thread has posted `dmtcp_restart_sem`, and then all of them have
saved their contexts, each in a `threadinfo` of its own (`Registered.step`).

The template thread counts the records once. So it must not happen later that a thread records
itself or marks its record (`Orderly`): otherwise it waits for too many posts or for too few.

* **The numbers.** The `threadinfo`s in use are the tickets of the threads (`Numbered`).
* **The barrier.** The posts still awaited are those of the recorded threads which have not posted
  (`Awaited`).
-/

namespace McMini.Restart

open Foundation TargetThread Transfer

variable {p p' : Process} {mode : Mode} {k : ℕ} {u : User} {pc : UserPc} {l : Locals}
  {place place' : Place} {templateLoop : Bool} {t location : Addr} {state : ObjectRecord}

/-- What the threads do is in order: there is room for all of them, descriptors are not used again,
and the records of threads do not change after the template thread has counted them. -/
def Orderly (s : State) : Action → Prop
  | .restarted (.user k) =>
    (liveThreads s.restarted.recList).length ≤ maxThreadInfos ∧
      (s.restarted.template = .sleeping ∨
        ∀ u ∈ s.restarted.users[k]?, u.pc.isRegistering = false)
  | .restarted (.create _ t) => s.restarted.Unused t
  | _ => True

instance (s : State) : DecidablePred (Orderly s)
  | .restarted (.user _) => inferInstanceAs (Decidable (_ ∧ _))
  | .restarted (.create _ _) => inferInstanceAs (Decidable (Recording.Unused _ _))
  | .restarted (.object _ _ _) | .restarted (.wake _) | .restarted .template => .isTrue trivial
  | .branch _ _ | .fork _ | .forkFailed | .death => .isTrue trivial

/-! ### The numbers -/

/-- The index of the thread's `threadinfo`. -/
def UserPc.threadInfo : UserPc → Option ℕ
  | .handling l _ => some l.origThreadIdx
  | _ => none

/-- What the `threadinfo` of a thread contains. -/
def Stored (info : ThreadInfo) (t : Addr) (l : Locals) : Place → Prop
  | .allocated => True
  | .cleared => info = {}
  | .described => info = ⟨true, t, none⟩
  | _ => info = ⟨true, t, some l⟩

/-- Where a thread of the restarted process can get to. -/
def Place.Permitted (mode : Mode) : Place → Prop
  | .allocated | .cleared | .described | .saved | .switching => True
  | .locking | .testing | .waiting | .reacquiring => mode = .dmtcpRestartIntoTemplate
  | .awaiting => mode = .dmtcpRestartIntoBranch
  | .unlocking | .aborted => False

/-- What holds of a thread of the restarted process. -/
inductive Proper (mode : Mode) (pid : ℤ) (infos : ℕ → ThreadInfo) (u : User) : Prop
  | inRecording (hpc : u.pc.InRecording)
  | entering (hpc : u.pc = .entering ∨ u.pc = .entered mode)
  | handling {l : Locals} {place : Place} (hpc : u.pc = .handling l place)
      (hmode : l.modeOnEntry = mode) (hpid : l.origPid = pid)
      (hstored : Stored (infos l.origThreadIdx) u.pthreadDescriptor l place)
      (hplace : place.Permitted mode)

/-- **The threads and their `threadinfo`s.** -/
structure Numbered (mode : Mode) (p : Process) : Prop where
  drawn : Drawn (·.pc.threadInfo) p.users p.threadIdx
  proper : ∀ u ∈ p.users, Proper mode p.pid p.threadInfos u

/-- A step in which a thread touches no other `threadinfo` than its own. -/
theorem Numbered.set (h : Numbered mode p)
    (husers : p'.users = p.users.set k { u with pc := pc }) (hpid : p'.pid = p.pid)
    (hdrawn : Drawn (·.pc.threadInfo) p'.users p'.threadIdx)
    (hinfos : ∀ j i u', j ≠ k → p.users[j]? = some u' → u'.pc.threadInfo = some i →
      p'.threadInfos i = p.threadInfos i)
    (hproper : Proper mode p.pid p'.threadInfos { u with pc := pc }) : Numbered mode p' := by
  refine ⟨hdrawn, fun u' hu' => ?_⟩
  rw [hpid]
  rw [husers] at hu'
  obtain ⟨j, hj⟩ := List.mem_iff_getElem?.mp hu'
  rw [List.getElem?_set] at hj
  split_ifs at hj with hjk
  · exact Option.some.inj hj ▸ hproper
  · -- the others find their `threadinfo`s as they were
    cases h.proper u' (List.mem_of_getElem? hj) with
    | inRecording hpc => exact .inRecording hpc
    | entering hpc => exact .entering hpc
    | handling hpc hmode hpid hstored hplace =>
      have hsame := hinfos j _ u' (Ne.symm hjk) hj (by rw [hpc]; rfl)
      exact .handling hpc hmode hpid (hsame ▸ hstored) hplace

/-- What is known of a thread with a `threadinfo`. -/
theorem Numbered.handling (h : Numbered mode p) (hu : u ∈ p.users)
    (hpc : u.pc = .handling l place) :
    l.modeOnEntry = mode ∧ l.origPid = p.pid ∧
      Stored (p.threadInfos l.origThreadIdx) u.pthreadDescriptor l place ∧
      place.Permitted mode := by
  cases h.proper u hu with
  | inRecording hpc' =>
    rw [hpc] at hpc'
    exact hpc'.elim
  | entering hpc' => simp [hpc] at hpc'
  | handling hpc' hmode hpid hstored hplace =>
    rw [hpc] at hpc'
    cases hpc'
    exact ⟨hmode, hpid, hstored, hplace⟩

/-! ### The barrier -/

def Place.notified : Place → Bool
  | .allocated | .cleared | .described | .saved => false
  | _ => true

/-- The thread has posted `dmtcp_restart_sem`. -/
def UserPc.notified : UserPc → Bool
  | .handling _ place => place.notified
  | _ => false

/-- The posts of `dmtcp_restart_sem` which the template thread will still wait for. -/
def TemplatePc.left (threads : ℕ) : TemplatePc → ℕ
  | .sleeping => threads
  | .barrier left => left
  | _ => 0

/-- Where the template thread of the restarted process is, and the mode it has left. -/
inductive AtTemplate (templateLoop : Bool) (p : Process) : Prop
  | before (htemplate : p.template = .sleeping ∨ ∃ left, p.template = .barrier left)
      (hmode : p.mode = restartMode templateLoop)
  | loop (hloop : templateLoop = true)
      (htemplate : p.template = .publishing ∨ p.template = .waitingForRequest ∨
        p.template = .waitingForDeath)
      (hmode : p.mode = .dmtcpRestartIntoTemplate)
  | branch (hloop : templateLoop = false)
      (htemplate : p.template = .publishing ∨ p.template = .finished)
      (hmode : p.mode = .targetBranchAfterRestart)

/-- **The posts and the template thread.** -/
structure Awaited (templateLoop : Bool) (p : Process) : Prop where
  awaited : p.users.countP (·.pc.notified) + p.template.left (liveThreads p.recList).length =
    p.dmtcpRestartSem + (liveThreads p.recList).length
  template : AtTemplate templateLoop p

/-- The places which are not those of a branch. -/
def TemplatePc.InRestarted : TemplatePc → Prop
  | .recreating _ _ | .opening | .locking | .broadcasting | .unlocking => False
  | _ => True

theorem AtTemplate.inRestarted (h : AtTemplate templateLoop p) : p.template.InRestarted := by
  cases h with
  | before htemplate =>
    rcases htemplate with htemplate | ⟨left, htemplate⟩ <;> rw [htemplate] <;> trivial
  | loop _ htemplate =>
    rcases htemplate with htemplate | htemplate | htemplate <;> rw [htemplate] <;> trivial
  | branch _ htemplate => rcases htemplate with htemplate | htemplate <;> rw [htemplate] <;> trivial

/-- Before the barrier is passed, the mode is the one which was set at the restart. -/
theorem AtTemplate.mode_of_before (h : AtTemplate templateLoop p)
    (ht : p.template = .sleeping ∨ ∃ left, p.template = .barrier left) :
    p.mode = restartMode templateLoop := by
  cases h with
  | before _ hmode => exact hmode
  | loop hloop _ hmode => exact hloop ▸ hmode
  | branch _ ht' =>
    rcases ht with ht | ⟨left, ht⟩ <;> rw [ht] at ht' <;> rcases ht' with ht' | ht' <;> cases ht'

/-- After a restart into a template it is that for ever. -/
theorem AtTemplate.mode_of_loop (h : AtTemplate true p) : p.mode = .dmtcpRestartIntoTemplate := by
  cases h with
  | before _ hmode => exact hmode
  | loop _ _ hmode => exact hmode
  | branch hloop => cases hloop

/-- The template thread serves requests only after a restart into a template. -/
theorem AtTemplate.of_serving (h : AtTemplate templateLoop p)
    (ht : p.template = .waitingForRequest ∨ p.template = .waitingForDeath) :
    templateLoop = true ∧ p.mode = .dmtcpRestartIntoTemplate := by
  cases h with
  | before ht' => rcases ht with ht | ht <;> simp [ht] at ht'
  | loop hloop _ hmode => exact ⟨hloop, hmode⟩
  | branch _ ht' => rcases ht with ht | ht <;> simp [ht] at ht'

theorem AtTemplate.congr (h : AtTemplate templateLoop p) (htemplate : p'.template = p.template)
    (hmode : p'.mode = p.mode) : AtTemplate templateLoop p' := by
  cases h with
  | before ht hm => exact .before (htemplate ▸ ht) (hmode.trans hm)
  | loop hloop ht hm => exact .loop hloop (htemplate ▸ ht) (hmode.trans hm)
  | branch hloop ht hm => exact .branch hloop (htemplate ▸ ht) (hmode.trans hm)

theorem countP_set_add {α : Type*} {f : α → Bool} {l : List α} {k : ℕ} {x y : α}
    (hx : l[k]? = some x) :
    (l.set k y).countP f + (f x).toNat = l.countP f + (f y).toNat := by
  induction l generalizing k with
  | nil => cases hx
  | cons z l ih =>
    cases k with
    | zero =>
      obtain rfl := Option.some.inj hx
      rw [List.set_cons_zero, List.countP_cons, List.countP_cons]
      cases f z <;> cases f y <;> simp
    | succ k =>
      have hrest := ih hx
      rw [List.set_cons_succ, List.countP_cons, List.countP_cons]
      omega

theorem countP_lt_countP {α : Type*} {f g : α → Bool} {l : List α} {x : α}
    (himp : ∀ y, f y = true → g y = true) (hx : x ∈ l) (hf : f x = false) (hg : g x = true) :
    l.countP f < l.countP g := by
  induction l with
  | nil => cases hx
  | cons y l ih =>
    have hle : l.countP f ≤ l.countP g := List.countP_mono_left fun y _ => himp y
    rw [List.countP_cons, List.countP_cons]
    rcases List.mem_cons.mp hx with rfl | hx
    · rw [hf, hg]
      simpa using Nat.lt_succ_of_le hle
    · have hlt := ih hx
      have hy : (if f y = true then 1 else 0) ≤ if g y = true then 1 else 0 := by
        split_ifs with hfy hgy
        · exact Nat.le_refl 1
        · exact absurd (himp y hfy) hgy
        · exact Nat.zero_le 1
        · exact Nat.le_refl 0
      omega

/-- A step which does not concern the records of threads, unless nobody has counted them. -/
theorem Awaited.set (h : Awaited templateLoop p) (hu : p.users[k]? = some u)
    (husers : p'.users = p.users.set k { u with pc := pc }) (hmode : p'.mode = p.mode)
    (htemplate : p'.template = p.template)
    (hlive : liveThreads p'.recList = liveThreads p.recList ∨ p.template = .sleeping)
    (hsem : p'.dmtcpRestartSem + u.pc.notified.toNat = p.dmtcpRestartSem + pc.notified.toNat) :
    Awaited templateLoop p' := by
  refine ⟨?_, h.template.congr htemplate hmode⟩
  have hcount := countP_set_add (f := fun u : User => u.pc.notified) (y := { u with pc := pc }) hu
  have hawaited := h.awaited
  dsimp only at hcount
  rw [husers, htemplate]
  rcases hlive with heq | hsleeping
  · rw [heq]
    omega
  · rw [hsleeping] at hawaited ⊢
    simp only [TemplatePc.left] at hawaited ⊢
    omega

/-! ### A step of the restarted process -/

/-- **The restarted process.** -/
structure Registered (templateLoop : Bool) (p : Process) : Prop where
  listed : Listed p.toRecording
  numbered : Numbered (restartMode templateLoop) p
  awaited : Awaited templateLoop p
  /-- A thread of the program, if any, holds `template_thread_mut`. -/
  owner : ∀ o, p.templateThreadMut = some o → ∃ k, o = .passer k

theorem UserPc.InRecording.threadInfo (h : pc.InRecording) : pc.threadInfo = none := by
  cases pc <;> first | rfl | exact h.elim

theorem UserPc.InRecording.notified (h : pc.InRecording) : pc.notified = false := by
  cases pc <;> first | rfl | exact h.elim

theorem isSome_recorded_of_notified {u : User} (h : u.pc.notified = true) :
    u.recorded.isSome = true := by
  obtain ⟨t, pc⟩ := u
  cases pc <;> first | rfl | cases h

theorem isSome_recorded_of_threadInfo {u : User} (h : u.pc.threadInfo.isSome = true) :
    u.recorded.isSome = true := by
  obtain ⟨t, pc⟩ := u
  cases pc <;> first | rfl | cases h

/-- As long as a recorded thread has not posted, the template thread waits. -/
theorem Registered.left_pos (h : Registered templateLoop p) (hu : u ∈ p.users)
    (hrecorded : u.recorded.isSome = true) (hnot : u.pc.notified = false) :
    0 < p.template.left (liveThreads p.recList).length := by
  have hlt : p.users.countP (·.pc.notified) < p.users.countP (fun u => u.recorded.isSome) :=
    countP_lt_countP (fun _ => isSome_recorded_of_notified) hu hnot hrecorded
  have hlength := h.listed.length
  have hawaited := h.awaited.awaited
  omega

/-- So it has not changed the mode. -/
theorem Registered.mode_eq (h : Registered templateLoop p) (hu : u ∈ p.users)
    (hrecorded : u.recorded.isSome = true) (hnot : u.pc.notified = false) :
    p.mode = restartMode templateLoop := by
  have hpos := h.left_pos hu hrecorded hnot
  cases h.awaited.template with
  | before _ hmode => exact hmode
  | loop hloop _ hmode => exact hloop ▸ hmode
  | branch _ htemplate =>
    rcases htemplate with htemplate | htemplate <;> rw [htemplate] at hpos <;>
      exact absurd hpos (Nat.lt_irrefl 0)

/-- Nor as long as a new thread has not recorded itself, since its creator waits. -/
theorem Registered.mode_eq_of_isNew (h : Registered templateLoop p) (hu : p.users[k]? = some u)
    (hnew : u.pc.isNew = true) : p.mode = restartMode templateLoop := by
  obtain ⟨j, v, hv, hpc⟩ := h.listed.creator k u hu hnew
  refine h.mode_eq (List.mem_of_getElem? hv) ?_ (by rw [hpc]; rfl)
  rw [User.recorded, hpc]
  rfl

theorem isInRestartMode_restartMode : (restartMode templateLoop).isInRestartMode = true := by
  cases templateLoop <;> rfl

theorem loop_of_restartMode (h : restartMode templateLoop = .dmtcpRestartIntoTemplate) :
    templateLoop = true := by
  cases templateLoop with
  | true => rfl
  | false => cases h

/-- The thread moves on, and `template_thread_mut` may change hands. -/
theorem Registered.move (h : Registered templateLoop p) (hu : p.users[k]? = some u)
    (hrecorded : User.recorded { u with pc := pc } = u.recorded) (hnew : pc.isNew = u.pc.isNew)
    (hidle : p.Idle u) (hinfo : pc.threadInfo = u.pc.threadInfo)
    (hnotified : pc.notified = u.pc.notified)
    (hproper : Proper (restartMode templateLoop) p.pid p.threadInfos { u with pc := pc })
    {m : Option Gate.Owner} (hm : ∀ o, m = some o → ∃ k, o = .passer k) :
    Registered templateLoop { p.goTo k u pc with templateThreadMut := m } where
  listed := h.listed.goTo hu hrecorded hnew hidle
  numbered := h.numbered.set rfl rfl (h.numbered.drawn.keep hu hinfo)
    (fun _ _ _ _ _ _ => rfl) hproper
  awaited := h.awaited.set hu rfl rfl rfl (.inl rfl) (by rw [hnotified]; rfl)
  owner := hm

/-- A thread with a `threadinfo` is recorded, before and after its step. -/
theorem Registered.listed_handling (h : Registered templateLoop p) (hu : p.users[k]? = some u)
    (hpc : u.pc = .handling l place) (place' : Place) :
    Listed (p.toRecording.goTo k u (.handling l place')) := by
  refine h.listed.goTo hu ?_ ?_ (idle_of_ne (by simp [hpc]))
  · rw [User.recorded, User.recorded, hpc]
  · rw [hpc]
    rfl

/-- The same of a thread with a `threadinfo`. -/
theorem Registered.moveHandling (h : Registered templateLoop p) (hu : p.users[k]? = some u)
    (hpc : u.pc = .handling l place) (place' : Place) (hnotified : place'.notified = place.notified)
    (hstored : Stored (p.threadInfos l.origThreadIdx) u.pthreadDescriptor l place')
    (hplace : place'.Permitted (restartMode templateLoop)) {m : Option Gate.Owner}
    (hm : ∀ o, m = some o → ∃ k, o = .passer k) :
    Registered templateLoop
      { p.goTo k u (.handling l place') with templateThreadMut := m } := by
  obtain ⟨hmode, hpid, -, -⟩ := h.numbered.handling (List.mem_of_getElem? hu) hpc
  refine ⟨h.listed_handling hu hpc place',
    h.numbered.set rfl rfl (h.numbered.drawn.keep hu ?_) (fun _ _ _ _ _ _ => rfl)
      (.handling rfl hmode hpid hstored hplace),
    h.awaited.set hu rfl rfl rfl (.inl rfl) ?_, hm⟩
  · rw [hpc]
    rfl
  · have heq : (UserPc.handling l place').notified = u.pc.notified := by
      rw [hpc]
      exact hnotified
    rw [heq]
    rfl

/-- The thread writes into its `threadinfo`. -/
theorem Registered.store (h : Registered templateLoop p) (hu : p.users[k]? = some u)
    (hpc : u.pc = .handling l place) (place' : Place) (hnotified : place'.notified = place.notified)
    {info : ThreadInfo}
    (hproper : Proper (restartMode templateLoop) p.pid
      (Function.update p.threadInfos l.origThreadIdx info)
      { u with pc := .handling l place' }) :
    Registered templateLoop
      ((p.setThreadInfo l.origThreadIdx info).goTo k u (.handling l place')) := by
  have hinfo : u.pc.threadInfo = some l.origThreadIdx := by rw [hpc]; rfl
  refine ⟨h.listed_handling hu hpc place',
    h.numbered.set rfl rfl (h.numbered.drawn.keep hu hinfo.symm) ?_ hproper,
    h.awaited.set hu rfl rfl rfl (.inl rfl) ?_, h.owner⟩
  · intro j i u' hjk hj hi
    have hne : i ≠ l.origThreadIdx := by
      rintro rfl
      exact hjk (h.numbered.drawn.injective hj hu hi hinfo)
    exact Function.update_of_ne hne _ _
  · have heq : (UserPc.handling l place').notified = u.pc.notified := by
      rw [hpc]
      exact hnotified
    rw [heq]
    rfl

/-- The thread has a `threadinfo`. -/
theorem Registered.stepHandling (h : Registered templateLoop p)
    (hsize : (liveThreads p.recList).length ≤ maxThreadInfos) (hu : p.users[k]? = some u)
    (hpc : u.pc = .handling l place) (hstep : p.stepHandling k u l place = some p') :
    Registered templateLoop p' := by
  have hmem := List.mem_of_getElem? hu
  obtain ⟨hmode, hpid, hstored, hplace⟩ := h.numbered.handling hmem hpc
  have hlock : p.lockAndTest k u l = some p' → Place.notified .testing = place.notified →
      Stored (p.threadInfos l.origThreadIdx) u.pthreadDescriptor l .testing →
      Place.Permitted (restartMode templateLoop) .testing → Registered templateLoop p' := by
    intro hlock hnotified hstored' hplace'
    unfold Process.lockAndTest at hlock
    split_ifs at hlock
    refine Option.some.inj hlock ▸ h.moveHandling hu hpc .testing hnotified hstored' hplace' ?_
    exact fun o ho => ⟨k, (Option.some.inj ho).symm⟩
  cases place with
  | allocated =>
    have hidx : l.origThreadIdx < p.threadIdx := h.numbered.drawn.lt hmem (by rw [hpc]; rfl)
    have hcount : p.threadIdx ≤ p.users.countP (fun u => u.recorded.isSome) := by
      rw [← h.numbered.drawn.countP_eq]
      exact List.countP_mono_left fun v _ => isSome_recorded_of_threadInfo
    have hlength := h.listed.length
    simp only [Process.stepHandling, if_pos (show l.origThreadIdx < maxThreadInfos by omega)]
      at hstep
    rw [← Option.some.inj hstep]
    refine h.store hu hpc .cleared rfl (.handling rfl hmode hpid ?_ trivial)
    exact Function.update_self ..
  | cleared =>
    simp only [Process.stepHandling] at hstep
    rw [← Option.some.inj hstep]
    refine h.store hu hpc .described rfl (.handling rfl hmode hpid ?_ trivial)
    rw [Function.update_self, show p.threadInfos l.origThreadIdx = {} from hstored]
    rfl
  | described =>
    simp only [Process.stepHandling] at hstep
    rw [← Option.some.inj hstep]
    refine h.store hu hpc .saved rfl (.handling rfl hmode hpid ?_ trivial)
    rw [Function.update_self, show p.threadInfos l.origThreadIdx = _ from hstored]
    rfl
  | saved =>
    simp only [Process.stepHandling, if_pos hpid.symm] at hstep
    rw [← Option.some.inj hstep]
    refine ⟨h.listed_handling hu hpc .switching,
      h.numbered.set rfl rfl (h.numbered.drawn.keep hu ?_) (fun _ _ _ _ _ _ => rfl)
        (.handling rfl hmode hpid hstored trivial),
      h.awaited.set hu rfl rfl rfl (.inl rfl) ?_, h.owner⟩
    · rw [hpc]
      rfl
    · rw [hpc]
      rfl
  | switching =>
    simp only [Process.stepHandling, hmode] at hstep
    cases templateLoop with
    | true => exact Option.some.inj hstep ▸ h.moveHandling hu hpc .locking rfl hstored rfl h.owner
    | false => exact Option.some.inj hstep ▸ h.moveHandling hu hpc .awaiting rfl hstored rfl h.owner
  | locking => exact hlock hstep rfl hstored hplace
  | reacquiring => exact hlock hstep rfl hstored hplace
  | testing =>
    -- the template itself never gets into the mode of a branch
    have hnot : p.mode ≠ .targetBranchAfterRestart := by
      obtain rfl := loop_of_restartMode hplace
      rw [h.awaited.template.mode_of_loop]
      simp
    simp only [Process.stepHandling, if_neg hnot] at hstep
    exact Option.some.inj hstep ▸ h.moveHandling hu hpc .waiting rfl hstored hplace (by simp)
  | waiting | awaiting | aborted => cases hstep
  | unlocking => exact hplace.elim

/-- A thread without a `threadinfo` goes on, and stays without. -/
theorem Registered.approach (h : Registered templateLoop p) (hu : p.users[k]? = some u)
    (hpc : ∀ l place, u.pc ≠ .handling l place) (hnew : pc.isNew = u.pc.isNew) (hidle : p.Idle u)
    (hrecorded : User.recorded { u with pc := pc } = u.recorded)
    (hpc' : pc.InRecording ∨ pc = .entering ∨ pc = .entered (restartMode templateLoop)) :
    Registered templateLoop (p.goTo k u pc) := by
  have hnone : u.pc.threadInfo = none ∧ u.pc.notified = false := by
    cases hold : u.pc <;> first | exact absurd hold (hpc _ _) | exact ⟨rfl, rfl⟩
  have hnone' : pc.threadInfo = none ∧ pc.notified = false := by
    rcases hpc' with hin | rfl | rfl
    · exact ⟨hin.threadInfo, hin.notified⟩
    · exact ⟨rfl, rfl⟩
    · exact ⟨rfl, rfl⟩
  refine h.move hu hrecorded hnew hidle (hnone'.1.trans hnone.1.symm)
    (hnone'.2.trans hnone.2.symm) ?_ h.owner
  rcases hpc' with hin | rfl | rfl
  · exact .inRecording hin
  · exact .entering (.inl rfl)
  · exact .entering (.inr rfl)

/-- A thread goes on which does not read the mode. -/
theorem Registered.stepRecording (h : Registered templateLoop p)
    (hlist : p.template = .sleeping ∨ u.pc.isRegistering = false) (hu : p.users[k]? = some u)
    (hin : u.pc.InRecording) {r : Recording} (hstep : p.toRecording.stepUser k u = some r) :
    Registered templateLoop { p with toRecording := r } := by
  obtain ⟨hlisted, hrecList, pc, hpc, husers⟩ := h.listed.stepUser hu hstep
  refine ⟨hlisted, h.numbered.set husers rfl ?_ (fun _ _ _ _ _ _ => rfl) (.inRecording hpc),
    h.awaited.set hu husers rfl rfl ?_ ?_, h.owner⟩
  · show Drawn (·.pc.threadInfo) r.users p.threadIdx
    rw [husers]
    exact h.numbered.drawn.keep hu (hpc.threadInfo.trans hin.threadInfo.symm)
  · rcases hlist with hsleeping | hnot
    · exact .inr hsleeping
    · exact .inl (congrArg liveThreads (hrecList hnot))
  · rw [hpc.notified, hin.notified]

/-- The thread has no `threadinfo`. -/
theorem Registered.stepUser_before (h : Registered templateLoop p)
    (hlist : p.template = .sleeping ∨ u.pc.isRegistering = false)
    (hu : p.users[k]? = some u) (hpc : ∀ l place, u.pc ≠ .handling l place)
    (hstep : p.stepUser k u = some p') : Registered templateLoop p' := by
  have hmem := List.mem_of_getElem? hu
  have hmode : u.recorded.isSome = true → u.pc.notified = false →
      p.mode = restartMode templateLoop := h.mode_eq hmem
  cases h.numbered.proper u hmem with
  | handling hpc' => exact absurd hpc' (hpc _ _)
  | inRecording hin =>
    cases hold : u.pc with
    | starting | recording | ending | leaving | creating =>
      simp only [Process.stepUser, hold] at hstep
      -- what the wrappers did before the checkpoint they do still
      obtain ⟨r, hr, rfl⟩ := Option.map_eq_some_iff.mp hstep
      exact h.stepRecording hlist hu hin hr
    | registered id =>
      have hmode := h.mode_eq_of_isNew hu (by rw [hold]; rfl)
      simp only [Process.stepUser, hold, hmode, isInRestartMode_restartMode, if_pos] at hstep
      rw [← Option.some.inj hstep]
      exact h.approach hu hpc (by rw [hold]; rfl) (idle_of_ne (by simp [hold]))
        (by rw [User.recorded, User.recorded, hold]) (.inl trivial)
    | outside =>
      have hmode := hmode (by rw [User.recorded, hold]; rfl) (by rw [hold]; rfl)
      simp only [Process.stepUser, hold, hmode, isInRestartMode_restartMode, if_pos] at hstep
      rw [← Option.some.inj hstep]
      exact h.approach hu hpc (by rw [hold]; rfl) (idle_of_ne (by simp [hold]))
        (by rw [User.recorded, User.recorded, hold]) (.inr (.inl rfl))
    | ended | left =>
      simp only [Process.stepUser, hold] at hstep
      cases hstep
    | elsewhere | entering | entered | handling | overflowed | crashed | assertionFailed =>
      rw [hold] at hin
      exact hin.elim
  | entering hpc' =>
    -- the thread gets its `threadinfo` with the second of these steps
    rcases hpc' with hentering | hentered
    · have hmode := hmode (by rw [User.recorded, hentering]; rfl) (by rw [hentering]; rfl)
      simp only [Process.stepUser, hentering, hmode] at hstep
      rw [← Option.some.inj hstep]
      exact h.approach hu hpc (by rw [hentering]; rfl) (idle_of_ne (by simp [hentering]))
        (by rw [User.recorded, User.recorded, hentering]) (.inr (.inr rfl))
    · simp only [Process.stepUser, hentered] at hstep
      rw [← Option.some.inj hstep]
      refine ⟨h.listed.set hu rfl rfl ?_ ?_ (idle_of_ne (by simp [hentered])),
        h.numbered.set rfl rfl (h.numbered.drawn.draw hu ?_ rfl) (fun _ _ _ _ _ _ => rfl)
          (.handling rfl rfl rfl trivial trivial),
        h.awaited.set hu rfl rfl rfl (.inl rfl) ?_, h.owner⟩
      · rw [User.recorded, User.recorded, hentered]
      · rw [hentered]
        rfl
      · rw [hentered]
        rfl
      · rw [hentered]
        rfl

/-- A thread creates another one, whose descriptor is new. -/
theorem Registered.create (h : Registered templateLoop p) (hu : p.users[k]? = some u)
    (hpc : u.pc = .outside) (hunused : p.Unused t) :
    Registered templateLoop { p with toRecording := p.toRecording.create k u t } := by
  have husers : (p.toRecording.create k u t).users =
      p.users.set k { u with pc := .creating p.users.length } ++ [⟨t, .starting⟩] := rfl
  refine ⟨h.listed.create hu hpc hunused, ⟨?_, ?_⟩, ⟨?_, h.awaited.template.congr rfl rfl⟩,
    h.owner⟩
  · exact (h.numbered.drawn.keep hu (by rw [hpc]; rfl)).concat rfl
  · intro v hv
    rcases List.mem_append.mp hv with hv | hv
    · rcases List.mem_or_eq_of_mem_set hv with hv | rfl
      · exact h.numbered.proper v hv
      · exact .inRecording trivial
    · obtain rfl := List.mem_singleton.mp hv
      exact .inRecording trivial
  · have hcount := countP_set_add (f := fun u : User => u.pc.notified)
      (y := { u with pc := .creating p.users.length }) hu
    have hawaited := h.awaited.awaited
    show (p.toRecording.create k u t).users.countP _ + _ = _
    rw [husers, List.countP_append]
    simp only [hpc, UserPc.notified, Bool.toNat_false, Nat.add_zero] at hcount
    simp only [List.countP_singleton, UserPc.notified, hcount]
    exact hawaited

/-- A thread records the state of an object. -/
theorem Registered.recordObject (h : Registered templateLoop p) :
    Registered templateLoop
      { p with toRecording := p.toRecording.recordObject location state } := by
  have hlive : liveThreads (Restart.recordObject location state p.recList) =
      liveThreads p.recList := filterMap_recordObject fun _ _ => rfl
  refine ⟨h.listed.recordObject, ⟨h.numbered.drawn, h.numbered.proper⟩,
    ⟨?_, h.awaited.template.congr rfl rfl⟩, h.owner⟩
  have hawaited := h.awaited.awaited
  rw [← hlive] at hawaited
  exact hawaited

/-- A step of the template thread. -/
theorem Registered.stepTemplate (h : Registered templateLoop p)
    (hstep : p.stepTemplate = some p') : Registered templateLoop p' := by
  have hkept : ∀ {mode sem t},
      Awaited templateLoop { p with mode := mode, dmtcpRestartSem := sem, template := t } →
      Registered templateLoop
        { p with mode := mode, dmtcpRestartSem := sem, template := t } :=
    fun hawaited => ⟨h.listed, ⟨h.numbered.drawn, h.numbered.proper⟩, hawaited, h.owner⟩
  have hawaited := h.awaited.awaited
  cases ht : p.template with
  | sleeping =>
    -- the records of live threads are counted: so many have to check in
    simp only [Process.stepTemplate, ht, threadCount_eq] at hstep
    rw [ht] at hawaited
    exact Option.some.inj hstep ▸ hkept
      ⟨hawaited, .before (.inr ⟨_, rfl⟩) (h.awaited.template.mode_of_before (.inl ht))⟩
  | barrier left =>
    have hmode := h.awaited.template.mode_of_before (.inr ⟨left, ht⟩)
    rw [ht] at hawaited
    cases left with
    | zero =>
      simp only [Process.stepTemplate, ht, hmode] at hstep
      cases templateLoop with
      -- the mode decides between the loop of the template and a single branch
      | true => exact Option.some.inj hstep ▸ hkept ⟨hawaited, .loop rfl (.inl rfl) rfl⟩
      | false => exact Option.some.inj hstep ▸ hkept ⟨hawaited, .branch rfl (.inl rfl) rfl⟩
    | succ left =>
      simp only [Process.stepTemplate, ht] at hstep
      split_ifs at hstep with hpos
      refine Option.some.inj hstep ▸ hkept ⟨?_, .before (.inr ⟨_, rfl⟩) hmode⟩
      simp only [TemplatePc.left] at hawaited ⊢
      omega
  | publishing =>
    rw [ht] at hawaited
    cases h.awaited.template with
    | before ht' => rcases ht' with ht' | ⟨left, ht'⟩ <;> rw [ht] at ht' <;> cases ht'
    | loop hloop _ hmode =>
      simp only [Process.stepTemplate, ht, if_pos hmode] at hstep
      exact Option.some.inj hstep ▸ hkept ⟨hawaited, .loop hloop (.inr (.inl rfl)) hmode⟩
    | branch hloop _ hmode =>
      have hnot : p.mode ≠ .dmtcpRestartIntoTemplate := by
        rw [hmode]
        simp
      simp only [Process.stepTemplate, ht, if_neg hnot] at hstep
      exact Option.some.inj hstep ▸ hkept ⟨hawaited, .branch hloop (.inr rfl) hmode⟩
  | waitingForRequest | waitingForDeath | finished =>
    simp only [Process.stepTemplate, ht] at hstep
    cases hstep
  | recreating | opening | locking | broadcasting | unlocking =>
    -- these are steps of a branch
    have hpc := h.awaited.template.inRestarted
    rw [ht] at hpc
    exact hpc.elim

theorem Registered.serve (h : Registered templateLoop p) {t : TemplatePc}
    (ht : p.template = .waitingForRequest ∨ p.template = .waitingForDeath)
    (ht' : t = .waitingForRequest ∨ t = .waitingForDeath) :
    Registered templateLoop { p with template := t } := by
  obtain ⟨hloop, hmode⟩ := h.awaited.template.of_serving ht
  have hleft : ∀ n, p.template.left n = t.left n := by
    intro n
    rcases ht with ht | ht <;> rcases ht' with ht' | ht' <;> rw [ht, ht'] <;> rfl
  have hawaited := h.awaited.awaited
  rw [hleft] at hawaited
  exact ⟨h.listed, ⟨h.numbered.drawn, h.numbered.proper⟩,
    ⟨hawaited, .loop hloop (.inr ht') hmode⟩, h.owner⟩

/-- **The restarted process stays as described**, as long as its steps are orderly. -/
theorem Registered.step {s : State} {a : ThreadAction}
    (h : Registered templateLoop s.restarted) (horderly : Orderly s (.restarted a))
    (hstep : s.restarted.step a = some p') : Registered templateLoop p' := by
  cases a with
  | template => exact h.stepTemplate hstep
  | user k =>
    obtain ⟨u, hu, hstep⟩ := Option.bind_eq_some_iff.mp hstep
    obtain ⟨hsize, hlist⟩ := horderly
    by_cases hpc : ∃ l place, u.pc = .handling l place
    · obtain ⟨l, place, hpc⟩ := hpc
      simp only [Process.stepUser, hpc] at hstep
      exact h.stepHandling hsize hu hpc hstep
    · push Not at hpc
      exact h.stepUser_before (hlist.imp_right fun hall => hall u hu) hu hpc hstep
  | create k t =>
    obtain ⟨u, hu, hstep⟩ := Option.bind_eq_some_iff.mp hstep
    split_ifs at hstep with hpc hmode
    · exact Option.some.inj hstep ▸ h.create hu hpc horderly
    · rw [h.mode_eq (List.mem_of_getElem? hu) (by rw [User.recorded, hpc]; rfl)
        (by rw [hpc]; rfl)] at hmode
      exact absurd isInRestartMode_restartMode hmode
  | object k location state =>
    obtain ⟨u, hu, hstep⟩ := Option.bind_eq_some_iff.mp hstep
    split_ifs at hstep
    exact Option.some.inj hstep ▸ h.recordObject
  | wake k =>
    obtain ⟨u, hu, hstep⟩ := Option.bind_eq_some_iff.mp hstep
    split at hstep
    · next l hpc =>
      obtain ⟨-, -, hstored, hplace⟩ := h.numbered.handling (List.mem_of_getElem? hu) hpc
      exact Option.some.inj hstep ▸
        h.moveHandling hu hpc .reacquiring rfl hstored hplace h.owner
    · cases hstep

end McMini.Restart
