import McMini.Properties.LosslessTransfer
import McMini.Properties.RecreatedThreads
import McMini.RealWorld.Recording

/-!
# From the record to the model

What McMini reads after a restart has been recorded by threads which ran at the same time, and some
which were created before the checkpoint have recorded themselves only after the restart. A thread
draws its id before it records itself, so the ids in the list can have gaps (`Identified.ids`).

Each of the gaps is the id of a new thread. Its creator waits for it and does not post
`dmtcp_restart_sem`. So there is none when the template thread has got through the barrier, and the
model which McMini builds has a runner for each thread of the program (`model_of_recording`).
-/

namespace McMini.Restart

open Foundation TargetThread Transfer

variable {r r' : Recording} {p p' : Process} {k : ℕ} {u : User} {pc : UserPc}
  {templateLoop : Bool} {recList : List RecordedObject} {t location : Addr}
  {state : ObjectRecord}

/-- The descriptors of new threads have not been seen before. -/
def Fresh (r : Recording) : RecordAction → Prop
  | .create _ t => r.Unused t
  | _ => True

instance (r : Recording) : DecidablePred (Fresh r)
  | .create _ _ => inferInstanceAs (Decidable (Recording.Unused _ _))
  | .user _ | .object _ _ _ | .finish _ | .exit _ => .isTrue trivial

/-! ### The program at a checkpoint -/

theorem whenOutside_eq_some {f : User → Recording} (h : r.whenOutside k f = some r') :
    ∃ u, r.users[k]? = some u ∧ u.pc = .outside ∧ r' = f u := by
  obtain ⟨u, hu, h⟩ := Option.bind_eq_some_iff.mp h
  split_ifs at h with hpc
  exact ⟨u, hu, hpc, (Option.some.inj h).symm⟩

theorem atCheckpoint_recordMainThread : AtCheckpoint (recordMainThread t) := by
  refine ⟨⟨.refl _, List.nodup_singleton t, fun c v hv hnew => ?_⟩, fun u hu => ?_⟩
  · have hmem := List.mem_singleton.mp (List.mem_of_getElem? hv)
    rw [hmem] at hnew
    cases hnew
  · rw [List.mem_singleton.mp hu]
    trivial

theorem AtCheckpoint.set (h : AtCheckpoint r) (hlisted : Listed r')
    (husers : r'.users = r.users.set k { u with pc := pc }) (hpc : pc.InRecording) :
    AtCheckpoint r' := by
  refine ⟨hlisted, fun v hv => ?_⟩
  rw [husers] at hv
  rcases List.mem_or_eq_of_mem_set hv with hv | rfl
  · exact h.pc v hv
  · exact hpc

/-- A thread goes on, and its record is as before. -/
theorem AtCheckpoint.goTo (h : AtCheckpoint r) (hu : r.users[k]? = some u) (hpc : pc.InRecording)
    (hrecorded : User.recorded { u with pc := pc } = u.recorded) (hnew : pc.isNew = u.pc.isNew)
    (hidle : r.Idle u) : AtCheckpoint (r.goTo k u pc) :=
  h.set (h.listed.goTo hu hrecorded hnew hidle) rfl hpc

/-- **A checkpoint can be taken at any time.** -/
theorem AtCheckpoint.step {a : RecordAction} (h : AtCheckpoint r) (hfresh : Fresh r a)
    (hstep : r.step a = some r') : AtCheckpoint r' := by
  cases a with
  | user k =>
    obtain ⟨u, hu, hstep⟩ := Option.bind_eq_some_iff.mp hstep
    split at hstep
    · next id hpc =>
      rw [← Option.some.inj hstep]
      refine h.goTo hu trivial ?_ ?_ (idle_of_ne (by simp [hpc]))
      · rw [User.recorded, User.recorded, hpc]
      · rw [hpc]
        rfl
    · obtain ⟨hlisted, -, pc, hpc, husers⟩ := h.listed.stepUser hu hstep
      exact h.set hlisted husers hpc
  | create k t =>
    obtain ⟨u, hu, hpc, rfl⟩ := whenOutside_eq_some hstep
    refine ⟨h.listed.create hu hpc hfresh, fun v hv => ?_⟩
    rcases List.mem_append.mp hv with hv | hv
    · rcases List.mem_or_eq_of_mem_set hv with hv | rfl
      · exact h.pc v hv
      · trivial
    · rw [List.mem_singleton.mp hv]
      trivial
  | object k location state =>
    obtain ⟨u, -, -, rfl⟩ := whenOutside_eq_some hstep
    exact ⟨h.listed.recordObject, h.pc⟩
  | finish k =>
    simp only [Recording.step] at hstep
    split_ifs at hstep
    obtain ⟨u, hu, hpc, rfl⟩ := whenOutside_eq_some hstep
    refine h.goTo hu trivial ?_ ?_ (idle_of_ne (by simp [hpc]))
    · rw [User.recorded, User.recorded, hpc]
    · rw [hpc]
      rfl
  | exit k =>
    obtain ⟨u, hu, hpc, rfl⟩ := whenOutside_eq_some hstep
    refine h.goTo hu trivial ?_ ?_ (idle_of_ne (by simp [hpc]))
    · rw [User.recorded, User.recorded, hpc]
    · rw [hpc]
      rfl

/-! ### The ids and the entries -/

/-- The id which the thread has drawn and not recorded. -/
def User.reserved (u : User) : Option RunnerId :=
  match u.pc with
  | .registered id | .recording id => some id
  | _ => none

def User.threadStatus (u : User) : Record.ThreadStatus :=
  if u.pc = .ended then .exited else .alive

/-- What there is to be recorded of the thread, when it is not new. -/
def User.status (u : User) : Option (Addr × Record.ThreadStatus) :=
  if u.pc.isNew then none else some (u.pthreadDescriptor, u.threadStatus)

/-- The thread is recorded as alive, or will not be recorded. -/
def UserPc.Runs (pc : UserPc) : Prop := pc.isNew = false ∧ pc ≠ .ended

theorem UserPc.Runs.reserved (h : pc.Runs) : User.reserved { u with pc := pc } = none := by
  obtain ⟨hnew, -⟩ := h
  cases pc <;> first | rfl | cases hnew

theorem UserPc.Runs.status (h : pc.Runs) :
    User.status { u with pc := pc } = some (u.pthreadDescriptor, .alive) := by
  obtain ⟨hnew, hended⟩ := h
  simp [User.status, User.threadStatus, hnew, hended]

theorem User.status_of_runs (h : u.pc.Runs) : u.status = some (u.pthreadDescriptor, .alive) :=
  h.status

theorem User.reserved_of_runs (h : u.pc.Runs) : u.reserved = none := h.reserved

/-- The thread of the entry, and whether it is recorded as alive. -/
def recordedStatus (entry : RecordedObject) : Option (Addr × Record.ThreadStatus) :=
  entry.threadEntry.map fun record => (record.pthreadDesc, record.status)

/-- The id in the entry. -/
def recordedId (entry : RecordedObject) : Option RunnerId :=
  entry.threadEntry.map fun record => record.id

/-- **What the list contains.** -/
structure Identified (r : Recording) : Prop where
  ids : (r.recList.filterMap recordedId ++ r.users.filterMap User.reserved).Perm
    (List.range r.tidNext)
  threads : (r.recList.filterMap recordedStatus).Perm (r.users.filterMap User.status)
  distinct : (locations r.recList).Nodup
  entries : ∀ entry ∈ r.recList, entry.objectEntry ≠ none ∨ entry.threadEntry ≠ none

theorem identified_recordMainThread : Identified (recordMainThread t) :=
  ⟨.refl _, .refl _, List.nodup_nil, fun entry hentry => by
    rw [List.mem_singleton.mp hentry]
    simp [RecordedObject.threadEntry]⟩

/-- The thread ends, or has ended, without marking its record. -/
def UserPc.leaves : UserPc → Bool
  | .leaving | .left => true
  | _ => false

/-- What a step does to what is recorded. -/
inductive Recording.Effect (r : Recording) : Recording → Prop
  | none : Effect r r
  | goTo {k : ℕ} {u : User} {pc : UserPc} (hu : r.users[k]? = some u)
      (hreserved : User.reserved { u with pc := pc } = u.reserved)
      (hstatus : User.status { u with pc := pc } = u.status)
      (hleaves : pc.leaves = u.pc.leaves) : Effect r (r.goTo k u pc)
  | stepUser {k : ℕ} {u : User} {r' : Recording} (hu : r.users[k]? = some u)
      (hstep : r.stepUser k u = some r') : Effect r r'
  | create {k : ℕ} {u : User} {t : Addr} (hu : r.users[k]? = some u) (hpc : u.pc = .outside) :
      Effect r (r.create k u t)
  | recordObject {location : Addr} {state : ObjectRecord} :
      Effect r (r.recordObject location state)

theorem mem_locations_recordObject {a : Addr}
    (h : a ∈ locations (recordObject location state recList)) :
    a = location ∨ a ∈ locations recList := by
  induction recList with
  | nil => exact .inl (List.mem_singleton.mp h)
  | cons entry recList ih =>
    cases entry with
    | object a' state' =>
      rw [recordObject] at h
      split_ifs at h with ha
      · exact .inr h
      · rcases List.mem_cons.mp h with rfl | h
        · exact .inr (List.mem_cons_self ..)
        · exact (ih h).imp_right fun hmem => List.mem_cons_of_mem _ hmem
    | unknown | thread | cvWaitersQueue => exact ih h

/-- An object is recorded once. -/
theorem nodup_locations_recordObject (h : (locations recList).Nodup) :
    (locations (recordObject location state recList)).Nodup := by
  induction recList with
  | nil => exact List.nodup_singleton location
  | cons entry recList ih =>
    cases entry with
    | object a state' =>
      obtain ⟨hfresh, hrest⟩ := List.nodup_cons.mp (show (a :: locations recList).Nodup from h)
      rw [recordObject]
      split_ifs with ha
      · exact h
      · refine List.nodup_cons.mpr ⟨fun hmem => ?_, ih hrest⟩
        rcases mem_locations_recordObject hmem with heq | hmem
        · exact ha heq
        · exact hfresh hmem
    | unknown | thread | cvWaitersQueue => exact ih h

theorem entries_recordObject
    (h : ∀ entry ∈ recList, entry.objectEntry ≠ none ∨ entry.threadEntry ≠ none) :
    ∀ entry ∈ recordObject location state recList,
      entry.objectEntry ≠ none ∨ entry.threadEntry ≠ none := by
  induction recList with
  | nil =>
    intro entry hentry
    rw [List.mem_singleton.mp hentry]
    simp [RecordedObject.objectEntry]
  | cons first recList ih =>
    obtain ⟨hfirst, hrest⟩ := List.forall_mem_cons.mp h
    cases first with
    | object a state' =>
      rw [recordObject]
      split_ifs
      · exact List.forall_mem_cons.mpr ⟨.inl (by simp [RecordedObject.objectEntry]), hrest⟩
      · exact List.forall_mem_cons.mpr ⟨hfirst, ih hrest⟩
    | unknown | thread | cvWaitersQueue => exact List.forall_mem_cons.mpr ⟨hfirst, ih hrest⟩

/-- A thread goes on, and neither its id nor its record changes. -/
theorem Identified.goTo (h : Identified r) (hu : r.users[k]? = some u)
    (hreserved : User.reserved { u with pc := pc } = u.reserved)
    (hstatus : User.status { u with pc := pc } = u.status) : Identified (r.goTo k u pc) := by
  refine ⟨?_, ?_, h.distinct, h.entries⟩
  · show (r.recList.filterMap recordedId ++
      (r.users.set k { u with pc := pc }).filterMap User.reserved).Perm _
    rw [filterMap_set_of_eq hu hreserved]
    exact h.ids
  · show (r.recList.filterMap recordedStatus).Perm
      ((r.users.set k { u with pc := pc }).filterMap User.status)
    rw [filterMap_set_of_eq hu hstatus]
    exact h.threads

/-- A thread which runs goes on. -/
theorem Identified.run (h : Identified r) (hu : r.users[k]? = some u) (hold : u.pc.Runs)
    (hpc : pc.Runs) : Identified (r.goTo k u pc) :=
  h.goTo hu (hpc.reserved.trans (User.reserved_of_runs hold).symm)
    (hpc.status.trans (User.status_of_runs hold).symm)

/-- A thread draws an id. -/
theorem Identified.register (h : Identified r) (hu : r.users[k]? = some u)
    (hpc : u.pc = .starting) : Identified (r.register k u) := by
  have hstatus : User.status { u with pc := .registered r.tidNext } = u.status := by
    rw [User.status, User.status, hpc]
    rfl
  have hnone : u.reserved = none := by rw [User.reserved, hpc]
  have hdrawn := filterMap_set_perm (y := { u with pc := .registered r.tidNext }) hu hnone rfl
  refine ⟨?_, ?_, h.distinct, h.entries⟩
  · show (r.recList.filterMap recordedId ++
      (r.users.set k { u with pc := .registered r.tidNext }).filterMap User.reserved).Perm
        (List.range (r.tidNext + 1))
    rw [List.range_succ]
    exact (hdrawn.append_left _).trans (List.perm_middle.trans
      ((h.ids.cons _).trans (List.perm_append_singleton _ _).symm))
  · show (r.recList.filterMap recordedStatus).Perm
      ((r.users.set k { u with pc := .registered r.tidNext }).filterMap User.status)
    rw [filterMap_set_of_eq hu hstatus]
    exact h.threads

/-- It records the id. -/
theorem Identified.record (h : Identified r) (hlisted : Listed r) (hu : r.users[k]? = some u)
    {id : RunnerId} (hpc : u.pc = .recording id) : Identified (r.record k u id) := by
  obtain ⟨heq, -⟩ := hlisted.record hu hpc
  have hreserved : u.reserved = some id := by rw [User.reserved, hpc]
  have hstatus : u.status = none := by rw [User.status, hpc]; rfl
  have hgiven := perm_filterMap_set (y := { u with pc := .outside }) hu hreserved rfl
  have hadded := filterMap_set_perm (y := { u with pc := .outside }) hu hstatus rfl
  rw [heq]
  refine ⟨?_, ?_, ?_, fun entry hentry => ?_⟩
  · show ((r.recList ++ [RecordedObject.thread ⟨u.pthreadDescriptor, id, .alive⟩]).filterMap
      recordedId ++ (r.users.set k { u with pc := .outside }).filterMap User.reserved).Perm _
    rw [List.filterMap_append, List.append_assoc]
    exact (hgiven.symm.append_left _).trans h.ids
  · show ((r.recList ++ [RecordedObject.thread ⟨u.pthreadDescriptor, id, .alive⟩]).filterMap
      recordedStatus).Perm ((r.users.set k { u with pc := .outside }).filterMap User.status)
    rw [List.filterMap_append]
    exact (List.perm_append_singleton _ _).trans ((h.threads.cons _).trans hadded.symm)
  · show (locations (r.recList ++ _)).Nodup
    rw [locations, recordedObjects, List.filterMap_append]
    exact (List.append_nil (recordedObjects r.recList)).symm ▸ h.distinct
  · rcases List.mem_append.mp hentry with hentry | hentry
    · exact h.entries entry hentry
    · rw [List.mem_singleton.mp hentry]
      simp [RecordedObject.threadEntry]

/-- A thread which ends keeps its id. -/
theorem Identified.markExited (h : Identified r) (hlisted : Listed r) (hu : r.users[k]? = some u)
    (hpc : u.pc = .ending) : Identified (r.markExited k u) := by
  obtain ⟨before, id, after, hrecList, heq, -⟩ := hlisted.markExited hu hpc
  have hreserved : User.reserved { u with pc := .ended } = u.reserved := by
    rw [User.reserved, User.reserved, hpc]
  have hstatus : u.status = some (u.pthreadDescriptor, .alive) :=
    User.status_of_runs ⟨by rw [hpc]; rfl, by simp [hpc]⟩
  -- as if it were new and recorded as one which has exited
  have hremoved := perm_filterMap_set (y := { u with pc := .starting }) hu hstatus rfl
  have hlt : k < r.users.length := (List.getElem?_eq_some_iff.mp hu).1
  have hadded := filterMap_set_perm (f := User.status) (y := { u with pc := .ended })
    (b := (u.pthreadDescriptor, .exited))
    (List.getElem?_set_self (a := { u with pc := .starting }) hlt) rfl rfl
  rw [List.set_set] at hadded
  obtain ⟨hids, hthreads, hdistinct, hentries⟩ := h
  rw [hrecList, List.filterMap_append] at hids hthreads
  rw [hrecList] at hdistinct hentries
  rw [heq]
  refine ⟨?_, ?_, ?_, fun entry hentry => ?_⟩
  · show ((before ++ RecordedObject.thread ⟨u.pthreadDescriptor, id, .exited⟩ :: after).filterMap
      recordedId ++ (r.users.set k { u with pc := .ended }).filterMap User.reserved).Perm _
    rw [filterMap_set_of_eq hu hreserved, List.filterMap_append]
    exact hids
  · show ((before ++ RecordedObject.thread ⟨u.pthreadDescriptor, id, .exited⟩ :: after).filterMap
      recordedStatus).Perm ((r.users.set k { u with pc := .ended }).filterMap User.status)
    rw [List.filterMap_append]
    have hrest := (List.perm_cons _).mp (List.perm_middle.symm.trans (hthreads.trans hremoved))
    exact List.perm_middle.trans ((hrest.cons _).trans hadded.symm)
  · rw [locations, recordedObjects, List.filterMap_append] at hdistinct
    show (locations (before ++ _ :: after)).Nodup
    rw [locations, recordedObjects, List.filterMap_append]
    exact hdistinct
  · rcases List.mem_append.mp hentry with hentry | hentry
    · exact hentries entry (List.mem_append_left _ hentry)
    · rcases List.mem_cons.mp hentry with rfl | hentry
      · simp [RecordedObject.threadEntry]
      · exact hentries entry (List.mem_append_right _ (List.mem_cons_of_mem _ hentry))

/-- A thread goes on which does not read the mode. -/
theorem Identified.stepUser (h : Identified r) (hlisted : Listed r) (hu : r.users[k]? = some u)
    (hstep : r.stepUser k u = some r') : Identified r' := by
  cases hpc : u.pc with
  | starting =>
    simp only [Recording.stepUser, hpc] at hstep
    exact Option.some.inj hstep ▸ h.register hu hpc
  | recording id =>
    simp only [Recording.stepUser, hpc] at hstep
    exact Option.some.inj hstep ▸ h.record hlisted hu hpc
  | ending =>
    simp only [Recording.stepUser, hpc] at hstep
    exact Option.some.inj hstep ▸ h.markExited hlisted hu hpc
  | leaving =>
    simp only [Recording.stepUser, hpc] at hstep
    exact Option.some.inj hstep ▸ h.run hu ⟨by rw [hpc]; rfl, by simp [hpc]⟩ ⟨rfl, by simp⟩
  | creating c =>
    simp only [Recording.stepUser, hpc] at hstep
    split_ifs at hstep
    exact Option.some.inj hstep ▸ h.run hu ⟨by rw [hpc]; rfl, by simp [hpc]⟩ ⟨rfl, by simp⟩
  | registered | ended | left | outside | elsewhere | entering | entered | handling | overflowed
  | crashed | assertionFailed =>
    simp only [Recording.stepUser, hpc] at hstep
    cases hstep

/-- A thread is created, which has not drawn an id. -/
theorem Identified.create (h : Identified r) (hu : r.users[k]? = some u) (hpc : u.pc = .outside) :
    Identified (r.create k u t) := by
  have hruns : u.pc.Runs := ⟨by rw [hpc]; rfl, by simp [hpc]⟩
  have hreserved : User.reserved { u with pc := .creating r.users.length } = u.reserved :=
    (User.reserved_of_runs hruns).symm
  have hstatus : User.status { u with pc := .creating r.users.length } = u.status :=
    (User.status_of_runs hruns).symm
  have husers : (r.create k u t).users =
      r.users.set k { u with pc := .creating r.users.length } ++ [⟨t, .starting⟩] := rfl
  refine ⟨?_, ?_, h.distinct, h.entries⟩
  · show (r.recList.filterMap recordedId ++ (r.create k u t).users.filterMap User.reserved).Perm _
    rw [husers, List.filterMap_append, filterMap_set_of_eq hu hreserved]
    exact (List.append_nil (r.users.filterMap User.reserved)).symm ▸ h.ids
  · show (r.recList.filterMap recordedStatus).Perm ((r.create k u t).users.filterMap User.status)
    rw [husers, List.filterMap_append, filterMap_set_of_eq hu hstatus]
    exact (List.append_nil (r.users.filterMap User.status)).symm ▸ h.threads

theorem Identified.recordObject (h : Identified r) :
    Identified (r.recordObject location state) := by
  refine ⟨?_, ?_, nodup_locations_recordObject h.distinct, entries_recordObject h.entries⟩
  · show ((Restart.recordObject location state r.recList).filterMap recordedId ++ _).Perm _
    rw [filterMap_recordObject fun _ _ => rfl]
    exact h.ids
  · show ((Restart.recordObject location state r.recList).filterMap recordedStatus).Perm _
    rw [filterMap_recordObject fun _ _ => rfl]
    exact h.threads

/-- **The list stays as described.** -/
theorem Identified.effect (h : Identified r) (hlisted : Listed r) (heffect : r.Effect r') :
    Identified r' := by
  cases heffect with
  | none => exact h
  | goTo hu hreserved hstatus => exact h.goTo hu hreserved hstatus
  | stepUser hu hstep => exact h.stepUser hlisted hu hstep
  | create hu hpc => exact h.create hu hpc
  | recordObject => exact h.recordObject

/-- A thread which runs goes on. -/
theorem effect_goTo (hu : r.users[k]? = some u) (hold : u.pc.Runs) (hpc : pc.Runs)
    (hleaves : pc.leaves = u.pc.leaves) : r.Effect (r.goTo k u pc) :=
  .goTo hu (hpc.reserved.trans (User.reserved_of_runs hold).symm)
    (hpc.status.trans (User.status_of_runs hold).symm) hleaves

/-- What a thread does while it is recorded, unless it calls `pthread_exit`. -/
theorem effect_of_record {a : RecordAction} (hstep : r.step a = some r') :
    ((∀ k, a ≠ .exit k) ∧ r.Effect r') ∨
      ∃ k u, a = .exit k ∧ r.users[k]? = some u ∧ u.pc = .outside ∧ r' = r.goTo k u .leaving := by
  cases a with
  | user k =>
    obtain ⟨u, hu, hstep⟩ := Option.bind_eq_some_iff.mp hstep
    split at hstep
    · next id hpc =>
      rw [← Option.some.inj hstep]
      refine .inl ⟨by simp, .goTo hu ?_ ?_ ?_⟩
      · rw [User.reserved, User.reserved, hpc]
      · rw [User.status, User.status, hpc]
        rfl
      · rw [hpc]
        rfl
    · exact .inl ⟨by simp, .stepUser hu hstep⟩
  | create k t =>
    obtain ⟨u, hu, hpc, rfl⟩ := whenOutside_eq_some hstep
    exact .inl ⟨by simp, .create hu hpc⟩
  | object k location state =>
    obtain ⟨u, -, -, rfl⟩ := whenOutside_eq_some hstep
    exact .inl ⟨by simp, .recordObject⟩
  | finish k =>
    simp only [Recording.step] at hstep
    split_ifs at hstep
    obtain ⟨u, hu, hpc, rfl⟩ := whenOutside_eq_some hstep
    exact .inl ⟨by simp,
      effect_goTo hu ⟨by rw [hpc]; rfl, by simp [hpc]⟩ ⟨rfl, by simp⟩ (by rw [hpc]; rfl)⟩
  | exit k =>
    obtain ⟨u, hu, hpc, rfl⟩ := whenOutside_eq_some hstep
    exact .inr ⟨k, u, rfl, hu, hpc, rfl⟩

/-- What the restarted process does. -/
theorem Registered.effect {a : ThreadAction} (h : Registered templateLoop p)
    (hstep : p.step a = some p') : p.toRecording.Effect p'.toRecording := by
  cases a with
  | user k =>
    obtain ⟨u, hu, hstep⟩ := Option.bind_eq_some_iff.mp hstep
    cases hpc : u.pc with
    | starting | recording | ending | leaving | creating =>
      simp only [Process.stepUser, hpc] at hstep
      obtain ⟨r, hr, rfl⟩ := Option.map_eq_some_iff.mp hstep
      exact .stepUser hu hr
    | registered id =>
      -- a thread which is new finds the mode of the restart
      have hmode := h.mode_eq_of_isNew hu (by rw [hpc]; rfl)
      simp only [Process.stepUser, hpc, hmode, isInRestartMode_restartMode, if_pos] at hstep
      rw [← Option.some.inj hstep]
      refine .goTo hu ?_ ?_ ?_
      · rw [User.reserved, User.reserved, hpc]
      · rw [User.status, User.status, hpc]
        rfl
      · rw [hpc]
        rfl
    | outside =>
      simp only [Process.stepUser, hpc] at hstep
      rw [← Option.some.inj hstep]
      refine effect_goTo hu ⟨by rw [hpc]; rfl, by simp [hpc]⟩ ?_ ?_
      · split_ifs <;> exact ⟨rfl, by simp⟩
      · rw [hpc]
        split_ifs <;> rfl
    | entering | entered =>
      simp only [Process.stepUser, hpc] at hstep
      rw [← Option.some.inj hstep]
      exact effect_goTo hu ⟨by rw [hpc]; rfl, by simp [hpc]⟩ ⟨rfl, by simp⟩ (by rw [hpc]; rfl)
    | handling l place =>
      simp only [Process.stepUser, hpc] at hstep
      -- the locks of the template thread are no part of the recording
      obtain ⟨-, pc, hpc', heq⟩ := stepHandling_frame hstep
      rw [heq]
      refine effect_goTo hu ⟨by rw [hpc]; rfl, by simp [hpc]⟩ ?_ ?_
      · rcases hpc' with rfl | ⟨place, rfl⟩ <;> exact ⟨rfl, by simp⟩
      · rw [hpc]
        rcases hpc' with rfl | ⟨place, rfl⟩ <;> rfl
    | ended | left | elsewhere | overflowed | crashed | assertionFailed =>
      simp only [Process.stepUser, hpc] at hstep
      cases hstep
  | create k t =>
    obtain ⟨u, hu, hstep⟩ := Option.bind_eq_some_iff.mp hstep
    split_ifs at hstep with hpc hmode
    · exact Option.some.inj hstep ▸ .create hu hpc
    · rw [← Option.some.inj hstep]
      exact effect_goTo hu ⟨by rw [hpc]; rfl, by simp [hpc]⟩ ⟨rfl, by simp⟩ (by rw [hpc]; rfl)
  | object k location state =>
    -- objects are recorded outside of the restart code
    obtain ⟨u, -, hstep⟩ := Option.bind_eq_some_iff.mp hstep
    split_ifs at hstep
    exact Option.some.inj hstep ▸ .recordObject
  | wake k =>
    obtain ⟨u, hu, hstep⟩ := Option.bind_eq_some_iff.mp hstep
    split at hstep
    · next l hpc =>
      rw [← Option.some.inj hstep]
      exact effect_goTo hu ⟨by rw [hpc]; rfl, by simp [hpc]⟩ ⟨rfl, by simp⟩ (by rw [hpc]; rfl)
    · cases hstep
  | template =>
    -- the template thread only counts and waits, until it recreates threads in a branch
    have hpc := h.awaited.template.inRestarted
    cases ht : p.template with
    | sleeping =>
      simp only [Process.step, Process.stepTemplate, ht] at hstep
      exact Option.some.inj hstep ▸ .none
    | barrier left =>
      cases left <;> simp only [Process.step, Process.stepTemplate, ht] at hstep <;>
        split_ifs at hstep <;> exact Option.some.inj hstep ▸ .none
    | publishing =>
      simp only [Process.step, Process.stepTemplate, ht] at hstep
      split_ifs at hstep <;> exact Option.some.inj hstep ▸ .none
    | waitingForRequest | waitingForDeath | finished =>
      simp only [Process.step, Process.stepTemplate, ht] at hstep
      cases hstep
    | recreating | opening | locking | broadcasting | unlocking =>
      rw [ht] at hpc
      exact hpc.elim

/-! ### The life of the program -/

/-- **The program can be restarted** from each checkpoint. -/
theorem atCheckpoint_of_run {actions : List RecordAction}
    (hfresh : HoldsAlong Recording.step Fresh (recordMainThread t) actions)
    (hrun : runFrom Recording.step (recordMainThread t) actions = some r) :
    AtCheckpoint r ∧ Identified r := by
  refine runFrom_invariant_along (P := fun r => AtCheckpoint r ∧ Identified r) ?_
    ⟨atCheckpoint_recordMainThread, identified_recordMainThread⟩ hfresh hrun
  rintro r a r' ⟨hcheckpoint, hidentified⟩ hfresh hstep
  refine ⟨hcheckpoint.step hfresh hstep, ?_⟩
  rcases effect_of_record hstep with ⟨-, heffect⟩ | ⟨k, u, -, hu, hpc, rfl⟩
  · exact hidentified.effect hcheckpoint.listed heffect
  · exact hidentified.run hu ⟨by rw [hpc]; rfl, by simp [hpc]⟩ ⟨rfl, by simp⟩

/-- What the steps of recorded threads keep, those of restarted ones keep. -/
theorem effect_invariant {P : Recording → Prop} {pid : ℤ} {actions : List Action} {s : State}
    (hP : ∀ r r' : Recording, Listed r → r.Effect r' → P r → P r') (hstart : AtCheckpoint r)
    (horderly : HoldsAlong step Orderly (start pid templateLoop r) actions)
    (hrun : runFrom step (start pid templateLoop r) actions = some s) (hp : P r) :
    P s.restarted.toRecording := by
  have hboth : Sound templateLoop s ∧ P s.restarted.toRecording := by
    refine runFrom_invariant_along (P := fun s => Sound templateLoop s ∧ P s.restarted.toRecording)
      ?_ ⟨sound_start hstart, hp⟩ horderly hrun
    rintro s a s' ⟨hsound, hp⟩ horderly hstep
    refine ⟨hsound.step horderly hstep, ?_⟩
    cases a with
    | restarted a =>
      obtain ⟨p', hp', rfl⟩ := Option.map_eq_some_iff.mp hstep
      exact hP _ _ hsound.restarted.listed (hsound.restarted.effect hp') hp
    | branch i a =>
      obtain ⟨b, -, hstep⟩ := Option.bind_eq_some_iff.mp hstep
      obtain ⟨b', -, rfl⟩ := Option.map_eq_some_iff.mp hstep
      exact hp
    | fork | forkFailed | death =>
      simp only [step] at hstep
      split_ifs at hstep
      exact Option.some.inj hstep ▸ hp
  exact hboth.2

/-- Beyond the barrier no thread is new. -/
theorem Registered.not_isNew (h : Registered templateLoop p) (hpast : p.template.PastBarrier)
    (hu : u ∈ p.users) : u.pc.isNew = false := by
  obtain ⟨k, hk⟩ := List.mem_iff_getElem?.mp hu
  rcases h.settled hpast hk with hpc | ⟨l, place, hpc, -⟩ <;> rw [hpc] <;> rfl

theorem User.reserved_of_not_isNew (h : u.pc.isNew = false) : u.reserved = none := by
  obtain ⟨t, pc⟩ := u
  cases pc <;> first | rfl | cases h

/-- So the ids in the list are the first numbers. -/
theorem Registered.ids (h : Registered templateLoop p) (hidentified : Identified p.toRecording)
    (hpast : p.template.PastBarrier) :
    ((Transfer.recordedThreads p.recList).map (·.id)).Perm
      (List.range (Transfer.recordedThreads p.recList).length) := by
  have hnone : p.users.filterMap User.reserved = [] :=
    List.filterMap_eq_nil_iff.mpr fun u hu => User.reserved_of_not_isNew (h.not_isNew hpast hu)
  have hids := hidentified.ids
  have hmap : p.recList.filterMap recordedId = (Transfer.recordedThreads p.recList).map (·.id) :=
    List.map_filterMap.symm
  rw [hnone, List.append_nil, hmap] at hids
  have hlength := hids.length_eq
  rw [List.length_map, List.length_range] at hlength
  rw [hlength]
  exact hids

/-- And each thread of the program has its record. -/
theorem Registered.exists_records (h : Registered templateLoop p)
    (hidentified : Identified p.toRecording) (hpast : p.template.PastBarrier) :
    ∃ records, records.Perm (Transfer.recordedThreads p.recList) ∧
      List.Forall₂ (fun (u : User) (record : ThreadRecord) =>
        (u.pthreadDescriptor, u.threadStatus) = (record.pthreadDesc, record.status))
        p.users records := by
  have hall : p.users.filterMap User.status =
      p.users.map fun u => (u.pthreadDescriptor, u.threadStatus) := by
    rw [← List.filterMap_eq_map]
    refine List.filterMap_congr fun u hu => ?_
    rw [User.status, h.not_isNew hpast hu]
    rfl
  have hmap : p.recList.filterMap recordedStatus =
      (Transfer.recordedThreads p.recList).map fun record => (record.pthreadDesc, record.status) :=
    List.map_filterMap.symm
  have hthreads := hidentified.threads
  rw [hall, hmap] at hthreads
  have hself : List.Forall₂ (fun entry (record : ThreadRecord) =>
      entry = (record.pthreadDesc, record.status))
      ((Transfer.recordedThreads p.recList).map fun record => (record.pthreadDesc, record.status))
      (Transfer.recordedThreads p.recList) :=
    List.forall₂_map_left_iff.mpr (List.forall₂_same.mpr fun _ _ => rfl)
  obtain ⟨records, hrecords, hperm⟩ := List.perm_comp_forall₂ hthreads.symm hself
  exact ⟨records, hperm, List.forall₂_map_left_iff.mp hrecords⟩

/-- **From the record to the model.** Once the template thread has got through the barrier, what it
sends, or the one of a branch does, becomes a model with a runner for each thread the program has
ever had, alive or exited as the thread is, and with the recorded objects. -/
theorem model_of_recording {pid : ℤ} {recorded : List RecordAction} {actions : List Action}
    {s : State} {queues : Addr → Record.ThreadQueue}
    (hfresh : HoldsAlong Recording.step Fresh (recordMainThread t) recorded)
    (hrecord : runFrom Recording.step (recordMainThread t) recorded = some r)
    (horderly : HoldsAlong step Orderly (start pid templateLoop r) actions)
    (hrun : runFrom step (start pid templateLoop r) actions = some s)
    (hp : p = s.restarted ∧ p.template.PastBarrier ∨ p ∈ s.branches)
    (hqueues : ∀ location cond, .object location (.conditionVariable cond) ∈ p.recList →
      (queues cond.waitingThreads).threads.Nodup) :
    ∃ stream ts c, templateThread queues p.recList = some stream ∧
      (restoreModel stream).run unstarted = (.ok ts, c) ∧
      Restored queues p.recList c ∧ Exact p.recList c ∧
      ∃ ids, ids.Perm (List.range s.restarted.users.length) ∧
        List.Forall₂ (fun (u : User) (id : RunnerId) =>
          .thread ⟨u.pthreadDescriptor, id, u.threadStatus⟩ ∈ p.recList ∧
          c.getStateSequence.toState.HasThread id ⟨threadState u.threadStatus⟩)
          s.restarted.users ids := by
  obtain ⟨hcheckpoint, hidentified⟩ := atCheckpoint_of_run hfresh hrecord
  have hsound := sound_of_run hcheckpoint horderly hrun
  have hidentified : Identified s.restarted.toRecording := effect_invariant
    (fun _ _ hlisted heffect h => h.effect hlisted heffect) hcheckpoint horderly hrun hidentified
  -- a branch has the list of the template
  have hpast : s.restarted.template.PastBarrier ∧ p.recList = s.restarted.recList := by
    rcases hp with ⟨rfl, hpast⟩ | hbranch
    · exact ⟨hpast, rfl⟩
    · exact ⟨hsound.past (List.ne_nil_of_mem hbranch), (hsound.branches p hbranch).records⟩
  obtain ⟨hpast, hrecList⟩ := hpast
  rw [hrecList] at hqueues ⊢
  -- behind the barrier all threads have been recorded, so the ids which have been drawn are there
  have hrecorded : Recorded s.restarted.recList queues :=
    ⟨hidentified.entries, hidentified.distinct, hsound.restarted.ids hidentified hpast, hqueues⟩
  obtain ⟨stream, c, hstream, hrun, hknows⟩ := restoreModel_run hrecorded
  obtain ⟨records, hperm, hrecords⟩ := hsound.restarted.exists_records hidentified hpast
  have hrestored := hknows.restored hrecorded
  refine ⟨stream, _, c, hstream, hrun, hrestored, hknows.exact hrecorded, records.map (·.id), ?_,
    ?_⟩
  · rw [hrecords.length_eq, hperm.length_eq]
    exact (hperm.map _).trans hrecorded.ids
  · have hmem : ∀ record ∈ records, RecordedObject.thread record ∈ s.restarted.recList :=
      fun record hrecord => mem_threads.mp (hperm.mem_iff.mp hrecord)
    have hboth := ((List.forall₂_and_left records s.restarted.users).mpr
      ⟨hmem, hrecords.flip⟩).flip
    refine List.forall₂_map_right_iff.mpr (hboth.imp fun u record hrecord => ?_)
    obtain ⟨hentry, heq⟩ := hrecord
    obtain ⟨hdesc, hstatus⟩ := Prod.mk.inj heq
    rw [hdesc, hstatus]
    exact ⟨hentry, hrestored.thread record hentry⟩

/-- A thread has drawn its id when the checkpoint is taken, and has not recorded itself. -/
private def untilCheckpoint : List RecordAction :=
  [.object 0 64 (.mutex ⟨.unlocked, 0⟩), .create 0 12, .user 1, .user 1]

private theorem isSome_untilCheckpoint :
    (runFrom Recording.step (recordMainThread 11) untilCheckpoint).isSome = true := by
  decide +kernel

private def withGap : Recording :=
  (runFrom Recording.step (recordMainThread 11) untilCheckpoint).get isSome_untilCheckpoint

/-- It does so after the restart. -/
private def untilTransfer : List Action :=
  List.replicate 8 (.restarted (.user 1)) ++ List.replicate 8 (.restarted (.user 0)) ++
    List.replicate 5 (.restarted .template)

private theorem isSome_untilTransfer :
    (runFrom step (start 5 false withGap) untilTransfer).isSome = true := by
  decide +kernel

private def atTransfer : State :=
  (runFrom step (start 5 false withGap) untilTransfer).get isSome_untilTransfer

private theorem template_atTransfer : atTransfer.restarted.template = .finished := by
  decide +kernel

private def noQueues (_ : Addr) : Record.ThreadQueue := []

theorem model_of_recording_gap :
    ∃ stream ts c, templateThread noQueues atTransfer.restarted.recList = some stream ∧
      (restoreModel stream).run unstarted = (.ok ts, c) ∧
      Restored noQueues atTransfer.restarted.recList c := by
  have hpast : atTransfer.restarted.template.PastBarrier := by
    rw [template_atTransfer]
    trivial
  obtain ⟨stream, ts, c, hstream, hrun, hrestored, -⟩ := model_of_recording (by decide +kernel)
    (Option.some_get isSome_untilCheckpoint).symm (by decide +kernel)
    (Option.some_get isSome_untilTransfer).symm (.inl ⟨rfl, hpast⟩)
    fun _ cond _ => show (noQueues cond.waitingThreads).threads.Nodup from List.nodup_nil
  exact ⟨stream, ts, c, hstream, hrun, hrestored⟩

end McMini.Restart
