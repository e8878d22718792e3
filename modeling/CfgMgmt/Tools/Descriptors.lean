import CfgMgmt.Tools.Show

/-!
# The files that `load` leaves open

`load` opens the four files of a variable, reads them and closes them.  It returns as soon as a file cannot
be opened, and then leaves the files of this variable open that it has opened before
(`load_descriptors`).  What the system returns may be anything.
-/

namespace CfgMgmt.Tools.Descriptors

open CfgMgmt.Lib.Bytes CfgMgmt.Lib.Process CfgMgmt.Tools.Clist CfgMgmt.Tools.Show

/-! ### The descriptors of a process -/

/-- The files that are open, each a descriptor with its path, the last one first, and the path of the last
file that could not be opened. -/
structure Files where
  opened : List (ℕ × List UInt8)
  failed : Option (List UInt8)

/-- A system that opens files or does not, and returns whatever it likes. -/
def descriptors : Env Files Call Reply where
  perform s c r s' :=
    match c with
    | .openFile path =>
      (∃ fd, r = Except.ok fd ∧ fd ∉ s.opened.map Prod.fst ∧
          s' = { s with opened := (fd, path) :: s.opened }) ∨
        ∃ errno, r = Except.error errno ∧ s' = { s with failed := some path }
    | .close fd => s' = { s with opened := s.opened.eraseP fun x => x.1 = fd }
    | _ => s' = s
  others _ _ := False

/-- The directories of the four files, in the order in which `load` opens them. -/
def dirs : List String := ["val", "min", "max", "desc"]

/-- At most four files more than `base` are open. -/
def Few (base : List (ℕ × List UInt8)) (s : Files) : Prop :=
  ∃ mine, s.opened = mine ++ base ∧ mine.length ≤ 4

section Specs

variable {α β : Type} {n : ℕ} {base : List (ℕ × List UInt8)} {s : Files} {P : Files → Prop}

lemma stable_descriptors : Stable descriptors P := fun _ _ _ h => h.elim

lemma Few.of_append (mine : List (ℕ × List UInt8)) (failed : Option (List UInt8)) (h : mine.length ≤ 4) :
    Few base ⟨mine ++ base, failed⟩ :=
  ⟨mine, rfl, h⟩

lemma ensures_ret {Q : α → Files → Prop} {a : α} (hs : Few base s) (hQ : Q a s) :
    Ensures descriptors (Few base) Q (.ret a) s :=
  .ret (P := fun t => t = s) stable_descriptors (fun _ h => h ▸ hs) (fun _ h => h ▸ hQ) rfl

lemma ensures_call {Q : α → Files → Prop} {c : Call} {next : Reply c → Cli α} (hs : Few base s)
    (hnext : ∀ r s', descriptors.perform s c r s' → Ensures descriptors (Few base) Q (next r) s') :
    Ensures descriptors (Few base) Q (.call c next) s :=
  .call (P := fun t => t = s) stable_descriptors (fun _ h => h ▸ hs)
    (fun _ r s' h hp => hnext r s' (h ▸ hp)) rfl

/-! ### What opens and closes nothing -/

/-- The program leaves the descriptors alone. -/
def Quiet (base : List (ℕ × List UInt8)) (s : Files) (p : Cli α) : Prop :=
  Ensures descriptors (Few base) (fun _ t => t = s) p s

lemma Quiet.bind {p : Cli α} {f : α → Cli β} {Q : β → Files → Prop} (h : Quiet base s p)
    (hf : ∀ a, Ensures descriptors (Few base) Q (f a) s) :
    Ensures descriptors (Few base) Q (p >>= f) s :=
  Ensures.bind h fun a _ ht => ht ▸ hf a

lemma quiet_ret (hs : Few base s) (a : α) : Quiet base s (.ret a) := ensures_ret hs rfl

lemma quiet_fputs (hs : Few base s) (fd : ℕ) (text : List UInt8) : Quiet base s (fputs fd text) :=
  ensures_call hs fun r _ hp => hp ▸ quiet_ret hs r

lemma quiet_malloc (hs : Few base s) (size : ℕ) : Quiet base s (malloc size) :=
  ensures_call hs fun r _ hp => hp ▸ quiet_ret hs r

lemma quiet_exit (hs : Few base s) (code : ℤ) : Quiet base s (exit code : Cli α) :=
  ensures_call hs fun r => Empty.elim r

lemma quiet_orFault (hs : Few base s) (o : Option α) : Quiet base s (orFault o) := by
  cases o with
  | none => exact ensures_call hs fun r => Empty.elim r
  | some a => exact quiet_ret hs a

lemma quiet_readLoop (hs : Few base s) (fd size bytes : ℕ) (buf : Buf n) :
    Quiet base s (readLoop fd size bytes buf) := by
  fun_induction readLoop fd size bytes buf with
  | case1 bytes buf ih =>
    refine ensures_call hs fun reply s' hp => ?_
    obtain rfl : s' = s := hp
    split
    · exact quiet_ret hs _
    · rename_i data
      split
      · exact quiet_ret hs _
      · rename_i hne
        split
        · exact ensures_call hs fun r => Empty.elim r
        · exact ih data hne _

lemma quiet_readFd (hs : Few base s) (fd : ℕ) (buf : Buf n) : Quiet base s (readFd fd buf) := by
  refine (quiet_readLoop hs _ _ _ _).bind fun r => ?_
  split
  · exact quiet_ret hs _
  · exact (quiet_orFault hs _).bind fun _ => quiet_ret hs _

lemma quiet_readFile (hs : Few base s) (fd : ℕ) (buf : Buf n) (what : String) :
    Quiet base s (readFile fd buf what) := by
  refine (quiet_readFd hs fd buf).bind fun r => ?_
  split
  · exact (quiet_fputs hs _ _).bind fun _ => quiet_exit hs _
  · exact quiet_ret hs _

/-! ### What opens and closes -/

lemma ensures_openFile (path : List UInt8) (dir : String) (name : List UInt8) (hs : Few base s)
    (hroom : ∀ fd, Few base { s with opened := (fd, fileName path dir name) :: s.opened }) :
    Ensures descriptors (Few base)
      (fun r t => (∃ fd, r = .ok fd ∧ fd ∉ s.opened.map Prod.fst ∧
          t = { s with opened := (fd, fileName path dir name) :: s.opened }) ∨
        ∃ errno, r = .error errno ∧ t = { s with failed := some (fileName path dir name) })
      (openFile path dir name) s := by
  refine ensures_call hs fun r s' hp => ?_
  rcases hp with ⟨fd, rfl, hfd, rfl⟩ | ⟨errno, rfl, rfl⟩
  · exact ensures_ret (hroom fd) (.inl ⟨fd, rfl, hfd, rfl⟩)
  · have hs' : Few base { s with failed := some (fileName path dir name) } := hs
    exact (quiet_fputs hs' _ _).bind fun _ => ensures_ret hs' (.inr ⟨errno, rfl, rfl⟩)

lemma ensures_close (mine : List (ℕ × List UInt8)) {fd : ℕ} {path : List UInt8}
    {failed : Option (List UInt8)} {Q : Unit → Files → Prop} (hlen : (mine ++ [(fd, path)]).length ≤ 4)
    (hfd : fd ∉ mine.map Prod.fst) (hQ : Q () ⟨mine ++ base, failed⟩) :
    Ensures descriptors (Few base) Q (close fd) ⟨mine ++ [(fd, path)] ++ base, failed⟩ := by
  have hlen' : mine.length ≤ 4 := (List.length_append ▸ Nat.le_add_right _ _ : mine.length ≤ _).trans hlen
  refine ensures_call (.of_append _ _ hlen) fun r s' hp => ?_
  have hother : ∀ x ∈ mine, ¬ decide (x.1 = fd) = true := by
    intro x hx
    rw [decide_eq_true_eq]
    rintro rfl
    exact hfd (List.mem_map_of_mem hx)
  have herase : (mine ++ [(fd, path)] ++ base).eraseP (fun x => decide (x.1 = fd)) = mine ++ base := by
    rw [List.append_assoc, List.eraseP_append_right _ hother, List.singleton_append]
    exact congrArg (mine ++ ·) (List.eraseP_cons_of_pos (decide_eq_true rfl))
  obtain rfl : s' = ⟨mine ++ base, failed⟩ := by
    rw [← herase]
    exact hp
  exact ensures_ret (.of_append _ _ hlen') hQ

lemma ensures_loadFiles {fd₀ fd₁ fd₂ fd₃ : ℕ} {p₀ p₁ p₂ p₃ : List UInt8} {failed : Option (List UInt8)}
    (hnd : [fd₃, fd₂, fd₁, fd₀].Nodup) (name : List UInt8) (value minimum maximum : Buf maxNumericLen)
    (desc : Buf maxDescLen) :
    Ensures descriptors (Few base) (fun _ t => t = ⟨base, failed⟩)
      (loadFiles name fd₀ fd₁ fd₂ fd₃ value minimum maximum desc)
      ⟨[(fd₃, p₃), (fd₂, p₂), (fd₁, p₁), (fd₀, p₀)] ++ base, failed⟩ := by
  have hs : Few base ⟨[(fd₃, p₃), (fd₂, p₂), (fd₁, p₁), (fd₀, p₀)] ++ base, failed⟩ :=
    .of_append _ _ (Nat.le_refl 4)
  simp only [List.nodup_cons, List.mem_cons, List.not_mem_nil, or_false, not_or] at hnd
  obtain ⟨⟨h32, h31, h30⟩, ⟨h21, h20⟩, h10, -, -⟩ := hnd
  refine (quiet_readFile hs fd₀ value _).bind fun _ => ?_
  refine (quiet_readFile hs fd₁ minimum _).bind fun _ => ?_
  refine (quiet_readFile hs fd₂ maximum _).bind fun _ => ?_
  refine (quiet_readFile hs fd₃ desc _).bind fun _ => ?_
  refine (ensures_close [(fd₃, p₃), (fd₂, p₂), (fd₁, p₁)]
    (Q := fun _ t => t = ⟨[(fd₃, p₃), (fd₂, p₂), (fd₁, p₁)] ++ base, failed⟩)
    (Nat.le_refl 4) (by simp [Ne.symm h30, Ne.symm h20, Ne.symm h10]) rfl).bind fun _ t ht => ?_
  subst ht
  refine (ensures_close [(fd₃, p₃), (fd₂, p₂)]
    (Q := fun _ t => t = ⟨[(fd₃, p₃), (fd₂, p₂)] ++ base, failed⟩)
    (by simp) (by simp [Ne.symm h31, Ne.symm h21]) rfl).bind fun _ t ht => ?_
  subst ht
  refine (ensures_close [(fd₃, p₃)] (Q := fun _ t => t = ⟨[(fd₃, p₃)] ++ base, failed⟩)
    (by simp) (by simp [Ne.symm h32]) rfl).bind fun _ t ht => ?_
  subst ht
  refine (ensures_close [] (Q := fun _ t => t = ⟨base, failed⟩) (by simp) List.not_mem_nil
    rfl).bind fun _ t ht => ?_
  subst ht
  exact ensures_ret (.of_append [] _ (by decide)) rfl

end Specs

/-! ### `load` -/

/-- How `load` returns: with all of its files closed, or with those files of one variable open that stand
before the one that could not be opened. -/
def Returned (base : List (ℕ × List UInt8)) (path : List UInt8) (names : List (List UInt8))
    (r : Except ℕ+ (List Row)) (s : Files) : Prop :=
  match r with
  | .ok _ => s.opened = base
  | .error _ => ∃ name ∈ names, ∃ j dir, dirs[j]? = some dir ∧ s.failed = some (fileName path dir name) ∧
      ∃ mine, s.opened = mine ++ base ∧
        mine.map Prod.snd = ((dirs.take j).map fun dir => fileName path dir name).reverse

section Load

variable {base : List (ℕ × List UInt8)} {path : List UInt8} {names : List (List UInt8)}

lemma length_of_paths {mine : List (ℕ × List UInt8)} {name : List UInt8} {j : ℕ}
    (h : mine.map Prod.snd = ((dirs.take j).map fun dir => fileName path dir name).reverse) :
    mine.length ≤ 4 := by
  have hlen := congrArg List.length h
  rw [List.length_map, List.length_reverse, List.length_map] at hlen
  exact hlen ▸ List.length_take_le' j dirs

lemma returned_error (mine : List (ℕ × List UInt8)) {failed : Option (List UInt8)} {name : List UInt8}
    {errno : ℕ+} {j : ℕ} {dir : String} (hmem : name ∈ names) (hdir : dirs[j]? = some dir)
    (hpaths : mine.map Prod.snd = ((dirs.take j).map fun dir => fileName path dir name).reverse) :
    Ensures descriptors (Few base) (Returned base path names) (.ret (.error errno))
      { (⟨mine ++ base, failed⟩ : Files) with failed := some (fileName path dir name) } :=
  ensures_ret (.of_append mine _ (length_of_paths hpaths)) ⟨name, hmem, j, dir, hdir, rfl, mine, rfl, hpaths⟩

/-- Files that are open at the same time have different descriptors. -/
lemma nodup_opened {fd₀ fd₁ fd₂ fd₃ : ℕ} {fds : List ℕ} (h₁ : fd₁ ∉ fd₀ :: fds) (h₂ : fd₂ ∉ fd₁ :: fd₀ :: fds)
    (h₃ : fd₃ ∉ fd₂ :: fd₁ :: fd₀ :: fds) : [fd₃, fd₂, fd₁, fd₀].Nodup := by
  simp only [List.mem_cons, not_or] at h₁ h₂ h₃
  simp [h₁.1, h₂.1, h₂.2.1, h₃.1, h₃.2.1, h₃.2.2.1]

/-- What `load` does about the files, when it starts with the files `base`. -/
theorem ensures_load (failed : Option (List UInt8)) :
    Ensures descriptors (Few base) (Returned base path names) (load path names) ⟨base, failed⟩ := by
  induction names generalizing failed with
  | nil => exact ensures_ret (.of_append [] _ (Nat.zero_le 4)) rfl
  | cons name names ih =>
    have hs : ∀ mine : List (ℕ × List UInt8), mine.length ≤ 4 → Few base ⟨mine ++ base, failed⟩ :=
      fun mine h => .of_append mine failed h
    have hname : name ∈ name :: names := List.mem_cons_self
    refine (quiet_malloc (hs [] (by decide)) _).bind fun value => ?_
    refine (quiet_malloc (hs [] (by decide)) _).bind fun minimum => ?_
    refine (quiet_malloc (hs [] (by decide)) _).bind fun maximum => ?_
    refine (quiet_malloc (hs [] (by decide)) _).bind fun desc => ?_
    refine (ensures_openFile path "val" name (hs [] (by decide))
      fun fd => hs [(fd, fileName path "val" name)] (by simp)).bind fun r t ht => ?_
    rcases ht with ⟨fd₀, rfl, hfd₀, rfl⟩ | ⟨errno, rfl, rfl⟩
    swap
    · exact returned_error [] hname (j := 0) rfl rfl
    generalize hfile₀ : (fd₀, fileName path "val" name) = file₀
    refine (ensures_openFile path "min" name (hs [file₀] (by simp))
      fun fd => hs [(fd, fileName path "min" name), file₀] (by simp)).bind fun r t ht => ?_
    rcases ht with ⟨fd₁, rfl, hfd₁, rfl⟩ | ⟨errno, rfl, rfl⟩
    swap
    · exact returned_error [file₀] hname (j := 1) rfl (hfile₀ ▸ rfl)
    generalize hfile₁ : (fd₁, fileName path "min" name) = file₁
    refine (ensures_openFile path "max" name (hs [file₁, file₀] (by simp))
      fun fd => hs [(fd, fileName path "max" name), file₁, file₀] (by simp)).bind fun r t ht => ?_
    rcases ht with ⟨fd₂, rfl, hfd₂, rfl⟩ | ⟨errno, rfl, rfl⟩
    swap
    · exact returned_error [file₁, file₀] hname (j := 2) rfl (hfile₁ ▸ hfile₀ ▸ rfl)
    generalize hfile₂ : (fd₂, fileName path "max" name) = file₂
    refine (ensures_openFile path "desc" name (hs [file₂, file₁, file₀] (by simp))
      fun fd => hs [(fd, fileName path "desc" name), file₂, file₁, file₀] (by simp)).bind fun r t ht => ?_
    rcases ht with ⟨fd₃, rfl, hfd₃, rfl⟩ | ⟨errno, rfl, rfl⟩
    swap
    · exact returned_error [file₂, file₁, file₀] hname (j := 3) rfl (hfile₂ ▸ hfile₁ ▸ hfile₀ ▸ rfl)
    subst hfile₂ hfile₁ hfile₀
    refine (ensures_loadFiles (nodup_opened hfd₁ hfd₂ hfd₃) name value minimum maximum desc).bind
      fun row t ht => ?_
    subst ht
    refine (ih failed).bind fun r t hret => ?_
    cases r with
    | ok rows =>
      obtain ⟨opened, failed'⟩ := t
      obtain rfl : opened = base := hret
      exact ensures_ret (.of_append [] _ (Nat.zero_le 4)) rfl
    | error errno =>
      obtain ⟨name', hmem, j, dir, hdir, hfailed, mine, hopened, hpaths⟩ := hret
      exact ensures_ret ⟨mine, hopened, length_of_paths hpaths⟩
        ⟨name', List.mem_cons_of_mem _ hmem, j, dir, hdir, hfailed, mine, hopened, hpaths⟩

/-- **The files that `load` leaves open**, whatever the system returns to it: at no time more than four,
none when it returns 0, and when it returns an error exactly the files of one variable that stand before the
one that cannot be opened. -/
theorem load_descriptors {failed : Option (List UInt8)} {s : Files} {p : Cli (Except ℕ+ (List Row))}
    (hr : Runs descriptors (⟨base, failed⟩, load path names) (s, p)) :
    Few base s ∧ ∀ r, p = .ret r → Returned base path names r s := by
  have h : Ensures descriptors (Few base) (Returned base path names) p s := (ensures_load failed).of_runs hr
  refine ⟨h.invariant, fun r hp => ?_⟩
  subst hp
  exact (h s .refl).2

lemma perform_ok {s : Files} {fd : ℕ} (path : List UInt8) (h : fd ∉ s.opened.map Prod.fst) :
    descriptors.perform s (.openFile path) (Except.ok fd : Except ℕ+ ℕ)
      { s with opened := (fd, path) :: s.opened } :=
  .inl ⟨fd, rfl, h, rfl⟩

lemma perform_error (s : Files) (path : List UInt8) (errno : ℕ+) :
    descriptors.perform s (.openFile path) (Except.error errno : Except ℕ+ ℕ)
      { s with failed := some path } :=
  .inr ⟨errno, rfl, rfl⟩

lemma perform_malloc (s : Files) (size : ℕ) : descriptors.perform s (.malloc size) (Buf.zero size) s :=
  rfl

lemma perform_write (s : Files) (fd : ℕ) (text : List UInt8) :
    descriptors.perform s (.write fd text) () s :=
  rfl

lemma runs_noMin (path name : List UInt8) : Runs descriptors (⟨[], none⟩, load path [name])
    (⟨[(3, fileName path "val" name)], some (fileName path "min" name)⟩, .ret (.error 2)) := by
  refine (Runs.call _ (perform_malloc _ _)).trans ?_
  refine (Runs.call _ (perform_malloc _ _)).trans ?_
  refine (Runs.call _ (perform_malloc _ _)).trans ?_
  refine (Runs.call _ (perform_malloc _ _)).trans ?_
  refine (Runs.call _ (perform_ok _ (List.not_mem_nil : 3 ∉ []))).trans ?_
  refine (Runs.call _ (perform_error _ _ 2)).trans ?_
  exact Runs.call _ (perform_write _ _ _)

/-- The file of the value stays open. -/
theorem noMin_descriptors :
    Few [] ⟨[(3, fileName dfltPath "val" [97])], some (fileName dfltPath "min" [97])⟩ ∧
    ∀ r : Except ℕ+ (List Row), (Prog.ret (.error 2) : Cli (Except ℕ+ (List Row))) = .ret r →
      Returned [] dfltPath [[97]] r
        ⟨[(3, fileName dfltPath "val" [97])], some (fileName dfltPath "min" [97])⟩ :=
  load_descriptors (runs_noMin dfltPath [97])

end Load

end CfgMgmt.Tools.Descriptors
