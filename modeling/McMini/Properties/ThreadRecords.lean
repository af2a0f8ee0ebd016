import McMini.Foundation.Tickets
import McMini.RealWorld.Restart

/-!
# The records of the threads

A thread records itself before it runs, and marks its record when it has run. So the records of
living threads are those of the threads which are between the two (`Listed`). This is so while the
program is recorded and stays so after a restart, until each thread finds the program restarted.

Who creates a thread waits until the new thread has recorded itself. A thread which has not done so
therefore has a creator which gets no further.
-/

namespace McMini.Restart

open Foundation Transfer

variable {r r' : Recording} {k : ℕ} {u : User} {pc : UserPc} {recList : List RecordedObject}
  {t location : Addr} {state : ObjectRecord}

/-- The descriptor is not one which the library has seen before. -/
def Recording.Unused (r : Recording) (t : Addr) : Prop :=
  t ∉ recordedThreads r.recList ∧ t ∉ r.users.map (·.pthreadDescriptor)

instance (r : Recording) (t : Addr) : Decidable (r.Unused t) := inferInstanceAs (Decidable (_ ∧ _))

/-- The thread, if there is a record of it as alive. -/
def User.recorded (u : User) : Option Addr :=
  match u.pc with
  | .starting | .registered _ | .recording _ | .ended | .assertionFailed => none
  | _ => some u.pthreadDescriptor

/-- The thread, if it will record itself. -/
def User.new (u : User) : Option Addr := if u.pc.isNew then some u.pthreadDescriptor else none

/-- **The threads and their records.** -/
structure Listed (r : Recording) : Prop where
  recorded : (r.users.filterMap User.recorded).Perm (liveThreads r.recList)
  distinct : (recordedThreads r.recList ++ r.users.filterMap User.new).Nodup
  creator : ∀ (c : ℕ) (v : User), r.users[c]? = some v → v.pc.isNew = true →
    ∃ (k : ℕ) (u : User), r.users[k]? = some u ∧ u.pc = .creating c

theorem threadCount_eq : threadCount recList = (liveThreads recList).length :=
  List.length_filterMap_eq_countP.symm

theorem liveThreads_append (t : Addr) (id : RunnerId) :
    liveThreads (recList ++ [.thread ⟨t, id, .alive⟩]) = liveThreads recList ++ [t] :=
  List.filterMap_append

theorem recordedThreads_append (t : Addr) (id : RunnerId) :
    recordedThreads (recList ++ [.thread ⟨t, id, .alive⟩]) = recordedThreads recList ++ [t] :=
  List.filterMap_append

theorem mem_liveThreads :
    t ∈ liveThreads recList ↔ ∃ id, RecordedObject.thread ⟨t, id, .alive⟩ ∈ recList := by
  rw [liveThreads, List.mem_filterMap]
  constructor
  · rintro ⟨entry, hentry, hlive⟩
    cases entry with
    | thread r =>
      obtain ⟨t', id, status⟩ := r
      simp only [liveThread] at hlive
      split_ifs at hlive with hstatus
      exact ⟨id, by rwa [← Option.some.inj hlive, ← hstatus]⟩
    | unknown | object | cvWaitersQueue => cases hlive
  · exact fun ⟨id, hentry⟩ => ⟨_, hentry, rfl⟩

/-- The first record of the thread is not one of these. -/
theorem markExited_append {before : List RecordedObject} (h : t ∉ recordedThreads before) :
    markExited t (before ++ recList) = (markExited t recList).map (before ++ ·) := by
  induction before with
  | nil => simp
  | cons entry before ih =>
    rw [recordedThreads, List.filterMap_cons] at h
    have hskip : t ∉ recordedThreads before →
        (markExited t (before ++ recList)).map (entry :: ·) =
          (markExited t recList).map (entry :: before ++ ·) := by
      intro hbefore
      rw [ih hbefore, Option.map_map]
      rfl
    cases entry with
    | thread r =>
      obtain ⟨hne, hbefore⟩ := not_or.mp (List.mem_cons.not.mp h)
      rw [List.cons_append, markExited, if_neg (Ne.symm hne)]
      exact hskip hbefore
    | unknown | object | cvWaitersQueue => exact hskip h

/-- The record of a living thread is found and marked. -/
theorem exists_markExited (hdistinct : (recordedThreads recList).Nodup)
    (ht : t ∈ liveThreads recList) :
    ∃ before id after, recList = before ++ .thread ⟨t, id, .alive⟩ :: after ∧
      markExited t recList = some (before ++ .thread ⟨t, id, .exited⟩ :: after) := by
  obtain ⟨id, hentry⟩ := mem_liveThreads.mp ht
  obtain ⟨before, after, rfl⟩ := List.append_of_mem hentry
  refine ⟨before, id, after, rfl, ?_⟩
  -- it is the only one
  have hfirst : t ∉ recordedThreads before := by
    rw [recordedThreads, List.filterMap_append] at hdistinct
    exact fun hmem => (List.nodup_append.mp hdistinct).2.2 t hmem t (List.mem_cons_self ..) rfl
  rw [markExited_append hfirst, markExited, if_pos rfl]
  rfl

/-- Recording an object does not concern the threads. -/
theorem filterMap_recordObject {β : Type*} {f : RecordedObject → Option β}
    (hf : ∀ location state, f (.object location state) = none) :
    (recordObject location state recList).filterMap f = recList.filterMap f := by
  induction recList with
  | nil => rw [recordObject, List.filterMap_cons, hf]
  | cons entry recList ih =>
    cases entry with
    | object a state' =>
      rw [recordObject]
      split_ifs
      · rw [List.filterMap_cons, List.filterMap_cons, hf, hf]
      · rw [List.filterMap_cons, List.filterMap_cons, hf, ih]
    | unknown | thread | cvWaitersQueue =>
      simp only [recordObject, List.filterMap_cons, ih]

/-- The thread is not a creator whose new thread has still to record itself. -/
def Recording.Idle (r : Recording) (u : User) : Prop :=
  ∀ c v, u.pc = .creating c → r.users[c]? = some v → v.pc.isNew = false

theorem idle_of_ne (h : ∀ c, u.pc ≠ .creating c) : r.Idle u :=
  fun c _ hpc => absurd hpc (h c)

/-- An idle thread moves on. -/
theorem creator_set (h : Listed r) (hu : r.users[k]? = some u)
    (husers : r'.users = r.users.set k { u with pc := pc })
    (hnew : pc.isNew = true → u.pc.isNew = true) (hidle : r.Idle u) :
    ∀ (c : ℕ) (v : User), r'.users[c]? = some v → v.pc.isNew = true →
      ∃ (k : ℕ) (u : User), r'.users[k]? = some u ∧ u.pc = .creating c := by
  intro c v hv hisNew
  have hold : ∃ v, r.users[c]? = some v ∧ v.pc.isNew = true := by
    rw [husers, List.getElem?_set] at hv
    split_ifs at hv with hck
    · obtain rfl := Option.some.inj hv
      exact ⟨u, hck ▸ hu, hnew hisNew⟩
    · exact ⟨v, hv, hisNew⟩
  obtain ⟨w, hw, hwnew⟩ := hold
  obtain ⟨j, x, hx, hxpc⟩ := h.creator c w hw hwnew
  refine ⟨j, x, ?_, hxpc⟩
  rw [husers, List.getElem?_set, if_neg]
  · exact hx
  · rintro rfl
    obtain rfl := Option.some.inj (hu.symm.trans hx)
    rw [hidle c w hxpc hw] at hwnew
    cases hwnew

/-- A step which does not concern the records. -/
theorem Listed.set (h : Listed r) (hu : r.users[k]? = some u)
    (husers : r'.users = r.users.set k { u with pc := pc }) (hrecList : r'.recList = r.recList)
    (hrecorded : User.recorded { u with pc := pc } = u.recorded) (hnew : pc.isNew = u.pc.isNew)
    (hidle : r.Idle u) : Listed r' := by
  have hsame : User.new { u with pc := pc } = u.new := by rw [User.new, User.new, hnew]
  refine ⟨?_, ?_, creator_set h hu husers (fun h => hnew ▸ h) hidle⟩
  · rw [husers, hrecList, filterMap_set_of_eq hu hrecorded]
    exact h.recorded
  · rw [husers, hrecList, filterMap_set_of_eq hu hsame]
    exact h.distinct

theorem Listed.goTo (h : Listed r) (hu : r.users[k]? = some u)
    (hrecorded : User.recorded { u with pc := pc } = u.recorded) (hnew : pc.isNew = u.pc.isNew)
    (hidle : r.Idle u) : Listed (r.goTo k u pc) := h.set hu rfl rfl hrecorded hnew hidle

theorem Listed.length (h : Listed r) :
    r.users.countP (fun u => u.recorded.isSome) = (liveThreads r.recList).length := by
  rw [← List.length_filterMap_eq_countP, h.recorded.length_eq]

/-- A new thread records itself. There is no record of it yet. -/
theorem Listed.record (h : Listed r) (hu : r.users[k]? = some u) {id : RunnerId}
    (hpc : u.pc = .recording id) :
    r.record k u id = { r.goTo k u .outside with
      recList := r.recList ++ [.thread ⟨u.pthreadDescriptor, id, .alive⟩] } ∧
    Listed (r.record k u id) := by
  have hnew : u.new = some u.pthreadDescriptor := by rw [User.new, hpc]; rfl
  have hperm := perm_filterMap_set (y := { u with pc := .outside }) hu hnew rfl
  have hdistinct : (recordedThreads r.recList ++ u.pthreadDescriptor ::
      (r.users.set k { u with pc := .outside }).filterMap User.new).Nodup :=
    (hperm.append_left _).nodup_iff.mp h.distinct
  have hfresh : u.pthreadDescriptor ∉ recordedThreads r.recList :=
    fun hmem => (List.nodup_append.mp hdistinct).2.2 _ hmem _ (List.mem_cons_self ..) rfl
  rw [Recording.record, if_neg hfresh]
  refine ⟨rfl, ?_, ?_, creator_set h hu rfl (fun h => by cases h) (idle_of_ne (by simp [hpc]))⟩
  · show ((r.users.set k { u with pc := .outside }).filterMap User.recorded).Perm
      (liveThreads (r.recList ++ [.thread ⟨u.pthreadDescriptor, id, .alive⟩]))
    rw [liveThreads_append]
    have hnone : u.recorded = none := by rw [User.recorded, hpc]
    have hadded := filterMap_set_perm (y := { u with pc := .outside }) hu hnone rfl
    exact hadded.trans ((h.recorded.cons _).trans (List.perm_append_singleton _ _).symm)
  · show (recordedThreads (r.recList ++ [.thread ⟨u.pthreadDescriptor, id, .alive⟩]) ++
      (r.users.set k { u with pc := .outside }).filterMap User.new).Nodup
    rw [recordedThreads_append, List.append_assoc]
    exact hdistinct

/-- A thread which ends finds its record. -/
theorem Listed.markExited (h : Listed r) (hu : r.users[k]? = some u) (hpc : u.pc = .ending) :
    ∃ before id after,
      r.recList = before ++ .thread ⟨u.pthreadDescriptor, id, .alive⟩ :: after ∧
      r.markExited k u = { r.goTo k u .ended with
        recList := before ++ .thread ⟨u.pthreadDescriptor, id, .exited⟩ :: after } ∧
      Listed (r.markExited k u) := by
  have hrecorded : u.recorded = some u.pthreadDescriptor := by rw [User.recorded, hpc]
  have hmem : u.pthreadDescriptor ∈ liveThreads r.recList :=
    h.recorded.mem_iff.mp (List.mem_filterMap.mpr ⟨u, List.mem_of_getElem? hu, hrecorded⟩)
  obtain ⟨before, id, after, hrecList, hmark⟩ :=
    exists_markExited (List.nodup_append.mp h.distinct).1 hmem
  have heq : r.markExited k u = { r.goTo k u .ended with
      recList := before ++ .thread ⟨u.pthreadDescriptor, id, .exited⟩ :: after } := by
    simp only [Recording.markExited, hmark]
  have hnew : User.new { u with pc := .ended } = u.new := by rw [User.new, User.new, hpc]; rfl
  have hlive := h.recorded
  have hdistinct := h.distinct
  rw [hrecList] at hlive hdistinct
  refine ⟨before, id, after, hrecList, heq, ?_⟩
  rw [heq]
  refine ⟨?_, ?_, creator_set h hu rfl (fun h => by cases h) (idle_of_ne (by simp [hpc]))⟩
  · have hremoved := perm_filterMap_set (y := { u with pc := .ended }) hu hrecorded rfl
    rw [liveThreads, List.filterMap_append] at hlive
    show ((r.users.set k { u with pc := .ended }).filterMap User.recorded).Perm
      (liveThreads (before ++ .thread ⟨u.pthreadDescriptor, id, .exited⟩ :: after))
    rw [liveThreads, List.filterMap_append]
    exact (List.perm_cons _).mp (hremoved.symm.trans (hlive.trans List.perm_middle))
  · show (recordedThreads (before ++ .thread ⟨u.pthreadDescriptor, id, .exited⟩ :: after) ++
      (r.users.set k { u with pc := .ended }).filterMap User.new).Nodup
    rw [filterMap_set_of_eq hu hnew, recordedThreads, List.filterMap_append]
    rw [recordedThreads, List.filterMap_append] at hdistinct
    exact hdistinct

/-- Where a thread can be which the restart does not concern yet. -/
def UserPc.InRecording : UserPc → Prop
  | .starting | .registered _ | .recording _ | .ending | .ended | .leaving | .left
  | .creating _ | .outside => True
  | _ => False

/-- The thread changes what is recorded of the threads, with its next step. -/
def UserPc.isRegistering : UserPc → Bool
  | .recording _ | .ending => true
  | _ => false

/-- A step of a thread which does not read the mode. -/
theorem Listed.stepUser (h : Listed r) (hu : r.users[k]? = some u)
    (hstep : r.stepUser k u = some r') :
    Listed r' ∧ (u.pc.isRegistering = false → r'.recList = r.recList) ∧
      ∃ pc : UserPc, pc.InRecording ∧ r'.users = r.users.set k { u with pc := pc } := by
  cases hpc : u.pc with
  | starting =>
    simp only [Recording.stepUser, hpc] at hstep
    rw [← Option.some.inj hstep]
    -- the id is drawn, but nothing is recorded yet
    have hlisted : Listed (r.goTo k u (.registered r.tidNext)) :=
      h.goTo hu (by rw [User.recorded, User.recorded, hpc]) (by rw [hpc]; rfl)
        (idle_of_ne (by simp [hpc]))
    exact ⟨⟨hlisted.recorded, hlisted.distinct, hlisted.creator⟩, fun _ => rfl,
      .registered r.tidNext, trivial, rfl⟩
  | recording id =>
    simp only [Recording.stepUser, hpc] at hstep
    rw [← Option.some.inj hstep]
    obtain ⟨heq, hlisted⟩ := h.record hu hpc
    exact ⟨hlisted, by simp [UserPc.isRegistering], .outside, trivial, by rw [heq]; rfl⟩
  | ending =>
    simp only [Recording.stepUser, hpc] at hstep
    rw [← Option.some.inj hstep]
    obtain ⟨before, id, after, -, heq, hlisted⟩ := h.markExited hu hpc
    exact ⟨hlisted, by simp [UserPc.isRegistering], .ended, trivial, by rw [heq]; rfl⟩
  | leaving =>
    simp only [Recording.stepUser, hpc] at hstep
    rw [← Option.some.inj hstep]
    have hlisted : Listed (r.goTo k u .left) :=
      h.goTo hu (by rw [User.recorded, User.recorded, hpc]) (by rw [hpc]; rfl)
        (idle_of_ne (by simp [hpc]))
    exact ⟨hlisted, fun _ => rfl, .left, trivial, rfl⟩
  | creating c =>
    simp only [Recording.stepUser, hpc] at hstep
    split_ifs at hstep with hchild
    rw [← Option.some.inj hstep]
    -- the new thread has recorded itself, so its creator goes on
    have hidle : r.Idle u := by
      intro c' v hpc' hv
      obtain rfl : c = c' := UserPc.creating.inj (hpc.symm.trans hpc')
      rw [hv] at hchild
      simpa using hchild
    have hlisted : Listed (r.goTo k u .outside) :=
      h.goTo hu (by rw [User.recorded, User.recorded, hpc]) (by rw [hpc]; rfl) hidle
    exact ⟨hlisted, fun _ => rfl, .outside, trivial, rfl⟩
  | registered | ended | left | outside | elsewhere | entering | entered | handling | overflowed
  | crashed | assertionFailed =>
    simp only [Recording.stepUser, hpc] at hstep
    cases hstep

/-- A thread creates another one, whose descriptor is new. -/
theorem Listed.create (h : Listed r) (hu : r.users[k]? = some u) (hpc : u.pc = .outside)
    (hunused : r.Unused t) : Listed (r.create k u t) := by
  obtain ⟨hrecord, hfresh⟩ := hunused
  have hlt : k < r.users.length := (List.getElem?_eq_some_iff.mp hu).1
  have hrecorded : User.recorded { u with pc := .creating r.users.length } = u.recorded := by
    rw [User.recorded, User.recorded, hpc]
  have hnew : User.new { u with pc := .creating r.users.length } = u.new := by
    rw [User.new, User.new, hpc]
    rfl
  have husers : (r.create k u t).users =
      r.users.set k { u with pc := .creating r.users.length } ++ [⟨t, .starting⟩] := rfl
  refine ⟨?_, ?_, ?_⟩
  · rw [husers, List.filterMap_append, filterMap_set_of_eq hu hrecorded]
    exact (List.append_nil _).symm ▸ h.recorded
  · show (recordedThreads r.recList ++ (r.create k u t).users.filterMap User.new).Nodup
    rw [husers, List.filterMap_append, filterMap_set_of_eq hu hnew, ← List.append_assoc]
    refine List.Nodup.append h.distinct (List.nodup_singleton t) ?_
    -- neither is the descriptor recorded nor has a thread got it which is not recorded yet
    refine List.disjoint_singleton.mpr fun hmem => ?_
    rcases List.mem_append.mp hmem with hmem | hmem
    · exact hrecord hmem
    · obtain ⟨v, hv, hvnew⟩ := List.mem_filterMap.mp hmem
      rw [User.new] at hvnew
      split_ifs at hvnew
      exact hfresh (List.mem_map.mpr ⟨v, hv, Option.some.inj hvnew⟩)
  · intro c v hv hvnew
    by_cases hc : c < r.users.length
    · rw [Recording.create, List.getElem?_append_left (by rwa [List.length_set])] at hv
      have hold : r.users[c]? = some v := by
        rw [List.getElem?_set] at hv
        split_ifs at hv
        · obtain rfl := Option.some.inj hv
          cases hvnew
        · exact hv
      -- the creator of another new thread still waits for it, so it is not the one which acts
      obtain ⟨j, w, hw, hwpc⟩ := h.creator c v hold hvnew
      have hj : j ≠ k := by
        rintro rfl
        obtain rfl := Option.some.inj (hu.symm.trans hw)
        rw [hpc] at hwpc
        cases hwpc
      have hjlt : j < r.users.length := (List.getElem?_eq_some_iff.mp hw).1
      refine ⟨j, w, ?_, hwpc⟩
      rw [Recording.create, List.getElem?_append_left (by rwa [List.length_set]),
        List.getElem?_set_ne hj.symm]
      exact hw
    · -- it is the new one
      have hcle : c < r.users.length + 1 := by
        have hclt := (List.getElem?_eq_some_iff.mp hv).1
        rw [Recording.create, List.length_append, List.length_set] at hclt
        exact hclt
      obtain rfl : c = r.users.length := by omega
      refine ⟨k, { u with pc := .creating r.users.length }, ?_, rfl⟩
      rw [Recording.create, List.getElem?_append_left (by rwa [List.length_set])]
      exact List.getElem?_set_self hlt

theorem Listed.recordObject (h : Listed r) : Listed (r.recordObject location state) := by
  refine ⟨?_, ?_, h.creator⟩
  · show (r.users.filterMap User.recorded).Perm
      (liveThreads (Restart.recordObject location state r.recList))
    rw [liveThreads, filterMap_recordObject fun _ _ => rfl]
    exact h.recorded
  · show (recordedThreads (Restart.recordObject location state r.recList) ++ _).Nodup
    rw [recordedThreads, filterMap_recordObject fun _ _ => rfl]
    exact h.distinct

end McMini.Restart
