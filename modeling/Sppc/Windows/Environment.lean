import Mathlib.Logic.Function.Basic
import Sppc.Windows.WideText

/-!
# The environment (`platform/windows.h`)

`sppc_getenv`, `sppc_setenv` and `sppc_unsetenv`, over Windows' own environment.  What is `none` here reads memory
that nothing was written to.
-/

namespace Sppc.Windows

def ERROR_ENVVAR_NOT_FOUND : Nat := 203

/-- `'='`. -/
def equalSign : UInt8 := 61

/-- Windows' environment: the values by the names, as `fold` leaves them of any case. -/
abbrev Environment := List UInt16 → Option WString

/-- What the calls find: whether there is memory for the name and for the value, whether Windows counts the end of an
empty value, whether it calls it an error to clear a variable that is not set, and whether setting fails otherwise. -/
structure EnvAnswers where
  nameMemory : Bool
  valueMemory : Bool
  emptyNeed : Bool
  missingFails : Bool
  setFails : Option WinError
  found : ∀ e ∈ setFails, e.code ≠ ERROR_ENVVAR_NOT_FOUND

/-- `_sppc_win_env_name`. -/
def sppcWinEnvName (key : CString) (malloc : Bool) : Except Nat WString :=
  if key.chars = [] ∨ equalSign ∈ key.chars then .error SPPC_EINVAL
  else
    match sppcWinWpath key malloc with
    | .error e => .error (if e = SPPC_EILSEQ then SPPC_EINVAL else e)
    | .ok w => .ok w

/-- `GetEnvironmentVariableW` without a buffer, after `SetLastError(0)`: the size, and the last error. -/
def Environment.need (env : Environment) (emptyNeed : Bool) (slot : List UInt16) : Nat × Nat :=
  match env slot with
  | none => (0, ERROR_ENVVAR_NOT_FOUND)
  | some v => (if v.units = [] ∧ !emptyNeed then 0 else v.units.length + 1, 0)

section calls

variable (fold : UInt16 → UInt16)

/-- `sppc_getenv`: the error, and what the buffer holds then. -/
def sppcGetenv (env : Environment) (key : CString) (out : List UInt8) (ans : EnvAnswers) :
    Option (Nat × List UInt8) :=
  if out = [] then some (SPPC_ERANGE, out)
  else
    let out := out.set 0 0
    match sppcWinEnvName key ans.nameMemory with
    | .error bad => some (if bad = SPPC_EINVAL then SPPC_ENOENT else bad, out)
    | .ok name =>
      let (need, last) := env.need ans.emptyNeed (name.units.map fold)
      if need = 0 then some (if last = ERROR_ENVVAR_NOT_FOUND then SPPC_ENOENT else 0, out)
      else if !ans.valueMemory then some (SPPC_ENOMEM, out)
      else do
        let value ← env (name.units.map fold)
        let text := wideCharToMultiByte value.units
        if out.length < text.length + 1 then some (SPPC_ERANGE, out) else some (0, putString out text)

/-- The value that `sppc_setenv` makes of `val`. -/
def envValue (val : CString) (malloc : Bool) : Except Nat WString :=
  if val.chars = [] then (if malloc then .ok ⟨[], List.not_mem_nil⟩ else .error SPPC_ENOMEM)
  else
    match sppcWinWpath val malloc with
    | .error e => .error (if e = SPPC_EILSEQ then SPPC_EINVAL else e)
    | .ok w => .ok w

/-- `sppc_setenv`. -/
def sppcSetenv (env : Environment) (key val : CString) (overwrite : Bool) (ans : EnvAnswers) : Nat × Environment :=
  match sppcWinEnvName key ans.nameMemory with
  | .error err => (err, env)
  | .ok name =>
    match envValue val ans.valueMemory with
    | .error err => (err, env)
    | .ok value =>
      let (need, last) := env.need ans.emptyNeed (name.units.map fold)
      let isSet := 0 < need ∨ last ≠ ERROR_ENVVAR_NOT_FOUND
      if overwrite ∨ ¬isSet then
        match ans.setFails with
        | some e => (sppcErrnoWin32 e.code, env)
        | none => (0, Function.update env (name.units.map fold) (some value))
      else (0, env)

/-- `SetEnvironmentVariableW` with `NULL`. -/
def Environment.clear (env : Environment) (slot : List UInt16) (ans : EnvAnswers) : Except Nat Environment :=
  if env slot = none ∧ ans.missingFails then .error ERROR_ENVVAR_NOT_FOUND
  else
    match ans.setFails with
    | some e => .error e.code
    | none => .ok (Function.update env slot none)

/-- `sppc_unsetenv`. -/
def sppcUnsetenv (env : Environment) (key : CString) (ans : EnvAnswers) : Nat × Environment :=
  match sppcWinEnvName key ans.nameMemory with
  | .error err => (err, env)
  | .ok name =>
    match env.clear (name.units.map fold) ans with
    | .ok env => (0, env)
    | .error e => (if e ≠ ERROR_ENVVAR_NOT_FOUND then sppcErrnoWin32 e else 0, env)

/-- A call, with the buffer that it has. -/
inductive EnvCall
  | get (key : CString) (out : List UInt8)
  | set (key val : CString) (overwrite : Bool)
  | unset (key : CString)

/-- What a call returns, and what its buffer holds then. -/
structure EnvReturn where
  errno : Nat
  out : List UInt8
  deriving DecidableEq, Repr

def envStep (env : Environment) (ans : EnvAnswers) : EnvCall → Option (EnvReturn × Environment)
  | .get key out => (sppcGetenv fold env key out ans).map fun r => (⟨r.1, r.2⟩, env)
  | .set key val overwrite =>
    let r := sppcSetenv fold env key val overwrite ans
    some (⟨r.1, []⟩, r.2)
  | .unset key =>
    let r := sppcUnsetenv fold env key ans
    some (⟨r.1, []⟩, r.2)

/-- Calls, one after another. -/
def envRun : Environment → List (EnvCall × EnvAnswers) → Option (List EnvReturn × Environment)
  | env, [] => some ([], env)
  | env, (call, ans) :: calls => do
    let (r, env) ← envStep fold env ans call
    let (rs, env) ← envRun env calls
    some (r :: rs, env)

/-! ### The variables -/

/-- The name of a variable: characters, one at least, none of them `=`. -/
def nameOf (key : CString) : Option (List Char) :=
  (Utf8.decode key.chars).filter fun cs => cs ≠ [] ∧ equalSign ∉ key.chars

/-- What names the same variable in any case. -/
def slotOf (cs : List Char) : List UInt16 := (wide cs).map fold

/-- What a variable holds, as it crosses. -/
def Environment.text (env : Environment) (slot : List UInt16) : Option (List UInt8) :=
  (env slot).map fun v => wideCharToMultiByte v.units

/-- What a variable holds after a call that returned `errno`. -/
def EnvCall.leaves (slot : List UInt16) (errno : Nat) (before : Option (List UInt8)) : EnvCall → Option (List UInt8)
  | .get _ _ => before
  | .set key val overwrite =>
    if errno = 0 ∧ (nameOf key).map (slotOf fold) = some slot ∧ (overwrite ∨ before = none) then
      some val.chars else before
  | .unset key => if errno = 0 ∧ (nameOf key).map (slotOf fold) = some slot then none else before

/-- What a variable holds after calls and what they returned. -/
def lastLeft (slot : List UInt16) :
    Option (List UInt8) → List (EnvCall × EnvAnswers) → List EnvReturn → Option (List UInt8)
  | held, (call, _) :: calls, r :: rs => lastLeft slot (call.leaves fold slot r.errno held) calls rs
  | held, _, _ => held

/-- What reading a variable returns, where the variables hold `text`. -/
def readText (text : List UInt16 → Option (List UInt8)) (key : CString) (out : List UInt8) : EnvReturn :=
  if out = [] then ⟨SPPC_ERANGE, out⟩
  else
    match (nameOf key).bind fun cs => text (slotOf fold cs) with
    | none => ⟨SPPC_ENOENT, out.set 0 0⟩
    | some held => if held.length < out.length then ⟨0, putString out held⟩ else ⟨SPPC_ERANGE, out.set 0 0⟩

/-- What a call may return, where the variables hold `text`. -/
def EnvCall.Returns (text : List UInt16 → Option (List UInt8)) (ans : EnvAnswers) (r : EnvReturn) : EnvCall → Prop
  | .get key out => r.out.length = out.length ∧
      (r = readText fold text key out ∨ ¬(ans.nameMemory ∧ ans.valueMemory) ∧ r = ⟨SPPC_ENOMEM, out.set 0 0⟩)
  | .set key val _ =>
      r.errno = (if (nameOf key).isSome ∧ (Utf8.decode val.chars).isSome then 0 else SPPC_EINVAL) ∨
        ¬(ans.nameMemory ∧ ans.valueMemory) ∧ r.errno = SPPC_ENOMEM ∨ ∃ e ∈ ans.setFails,
        r.errno = sppcErrnoWin32 e.code
  | .unset key =>
      r.errno = (if (nameOf key).isSome then 0 else SPPC_EINVAL) ∨
        ¬ans.nameMemory ∧ r.errno = SPPC_ENOMEM ∨ ∃ e ∈ ans.setFails, r.errno = sppcErrnoWin32 e.code

variable {fold : UInt16 → UInt16} {env : Environment} {key val : CString} {ans : EnvAnswers} {out : List UInt8}

private theorem nameOf_eq_some_iff {cs : List Char} :
    nameOf key = some cs ↔ key.chars = Utf8.encode cs ∧ cs ≠ [] ∧ equalSign ∉ key.chars := by
  rw [nameOf, Option.filter_eq_some_iff, Utf8.decode_eq_some_iff, decide_eq_true_eq]

private theorem sppcWinWpath_ok {cs : List Char} (h : key.chars = Utf8.encode cs) (hne : key.chars ≠ [])
    (malloc : Bool) :
    ∃ w : WString, w.units = wide cs ∧ sppcWinWpath key malloc = if malloc then .ok w else .error SPPC_ENOMEM := by
  obtain ⟨w, hw, hunits⟩ := multiByteToWideChar_eq h
  refine ⟨w, hunits, ?_⟩
  rw [sppcWinWpath, if_neg hne, hw]

private theorem sppcWinWpath_error {malloc : Bool} (h : ∀ cs, key.chars ≠ Utf8.encode cs) :
    sppcWinWpath key malloc = .error SPPC_EILSEQ := by
  have hne : key.chars ≠ [] := fun hnil => h [] hnil
  rw [sppcWinWpath, if_neg hne, multiByteToWideChar_eq_none.2 h]

private theorem decode_eq_none {bytes : List UInt8} (h : Utf8.decode bytes = none) (cs : List Char) :
    bytes ≠ Utf8.encode cs := by
  rintro rfl
  rw [Utf8.decode_encode] at h
  cases h

private theorem sppcWinEnvName_of_none (h : nameOf key = none) (malloc : Bool) :
    sppcWinEnvName key malloc = .error SPPC_EINVAL := by
  unfold sppcWinEnvName
  by_cases hrefused : key.chars = [] ∨ equalSign ∈ key.chars
  · rw [if_pos hrefused]
  · rw [not_or] at hrefused
    have hbad : ∀ cs, key.chars ≠ Utf8.encode cs := by
      intro cs hcs
      have hname : nameOf key = some cs := by
        refine nameOf_eq_some_iff.2 ⟨hcs, ?_, hrefused.2⟩
        rintro rfl
        exact hrefused.1 hcs
      rw [h] at hname
      cases hname
    rw [if_neg (not_or.2 hrefused), sppcWinWpath_error hbad]
    rfl

private theorem sppcWinEnvName_of_some {cs : List Char} (h : nameOf key = some cs) (malloc : Bool) :
    ∃ w : WString, w.units = wide cs ∧ sppcWinEnvName key malloc = if malloc then .ok w else .error SPPC_ENOMEM := by
  obtain ⟨hchars, hne, heq⟩ := nameOf_eq_some_iff.1 h
  have hkey : key.chars ≠ [] := by
    rw [hchars]
    cases cs with
    | nil => exact absurd rfl hne
    | cons c cs =>
      rw [Utf8.encode_cons]
      exact fun hnil => String.utf8EncodeChar_ne_nil (List.append_eq_nil_iff.1 hnil).1
  obtain ⟨w, hunits, hpath⟩ := sppcWinWpath_ok hchars hkey malloc
  refine ⟨w, hunits, ?_⟩
  rw [sppcWinEnvName, if_neg (not_or.2 ⟨hkey, heq⟩), hpath]
  cases malloc <;> rfl

private theorem envValue_of_none (h : Utf8.decode val.chars = none) (malloc : Bool) :
    envValue val malloc = .error SPPC_EINVAL := by
  have hne : val.chars ≠ [] := decode_eq_none h []
  rw [envValue, if_neg hne, sppcWinWpath_error (decode_eq_none h)]
  rfl

private theorem envValue_of_some {cs : List Char} (h : Utf8.decode val.chars = some cs) (malloc : Bool) :
    ∃ w : WString, w.units = wide cs ∧ envValue val malloc = if malloc then .ok w else .error SPPC_ENOMEM := by
  have hchars := Utf8.decode_eq_some_iff.1 h
  by_cases hempty : val.chars = []
  · obtain rfl : cs = [] := by
      rw [hempty] at h
      exact (Option.some.inj h).symm
    refine ⟨⟨[], List.not_mem_nil⟩, rfl, ?_⟩
    rw [envValue, if_pos hempty]
  · obtain ⟨w, hunits, hpath⟩ := sppcWinWpath_ok hchars hempty malloc
    refine ⟨w, hunits, ?_⟩
    rw [envValue, if_neg hempty, hpath]
    cases malloc <;> rfl

private theorem need_eq_zero {slot : List UInt16} (emptyNeed : Bool) :
    (env.need emptyNeed slot).1 = 0 ∧ (env.need emptyNeed slot).2 = ERROR_ENVVAR_NOT_FOUND ↔ env slot = none := by
  unfold Environment.need
  cases env slot with
  | none => simp
  | some v => simp [ERROR_ENVVAR_NOT_FOUND]

private theorem putString_set (out text : List UInt8) : putString (out.set 0 0) text = putString out text := by
  rw [putString, putString, List.drop_set_of_lt (Nat.succ_pos _)]

private theorem putString_nil (hout : out ≠ []) : putString out [] = out.set 0 0 := by
  cases out with
  | nil => exact absurd rfl hout
  | cons b out => rfl

private theorem length_putString {text : List UInt8} (h : text.length < out.length) :
    (putString out text).length = out.length := by
  rw [putString, List.length_append, List.length_cons, List.length_drop]
  omega

/-- Reading gives what the variable holds. -/
private theorem sppcGetenv_spec (fold : UInt16 → UInt16) (env : Environment) (key : CString) (out : List UInt8)
    (ans : EnvAnswers) : ∃ r, sppcGetenv fold env key out ans = some r ∧ r.2.length = out.length ∧
      (⟨r.1, r.2⟩ = readText fold env.text key out ∨
        ¬(ans.nameMemory ∧ ans.valueMemory) ∧ (⟨r.1, r.2⟩ : EnvReturn) = ⟨SPPC_ENOMEM, out.set 0 0⟩) := by
  unfold sppcGetenv readText
  by_cases hout : out = []
  · rw [if_pos hout, if_pos hout]
    exact ⟨_, rfl, rfl, .inl rfl⟩
  rw [if_neg hout, if_neg hout]
  have hset : (out.set 0 0).length = out.length := List.length_set
  cases hname : nameOf key with
  | none =>
    rw [sppcWinEnvName_of_none hname]
    exact ⟨_, rfl, hset, .inl rfl⟩
  | some cs =>
    obtain ⟨w, hunits, hw⟩ := sppcWinEnvName_of_some hname ans.nameMemory
    rw [hw]
    cases hmemory : ans.nameMemory with
    | false => exact ⟨_, rfl, hset, .inr ⟨by simp, rfl⟩⟩
    | true =>
      simp only [if_true, Option.bind_some, hunits]
      rw [Environment.text, slotOf]
      cases hval : env ((wide cs).map fold) with
      | none =>
        simp only [Environment.need, hval, if_true]
        exact ⟨_, rfl, hset, .inl rfl⟩
      | some v =>
        simp only [Environment.need, hval, Option.map_some]
        by_cases hempty : v.units = [] ∧ !ans.emptyNeed
        · have hfits : (wideCharToMultiByte v.units).length < out.length := by
            rw [hempty.1]
            exact List.length_pos_iff.2 hout
          rw [if_pos hempty, if_pos rfl, if_pos hfits, hempty.1]
          exact ⟨_, rfl, hset, .inl (congrArg _ (putString_nil hout).symm)⟩
        · rw [if_neg hempty, if_neg (Nat.succ_ne_zero _)]
          cases hvalue : ans.valueMemory with
          | false => exact ⟨_, rfl, hset, .inr ⟨by simp, rfl⟩⟩
          | true =>
            simp only [Bool.not_true, Bool.false_eq_true, if_false, Option.bind_eq_bind, Option.bind_some, hset,
              putString_set]
            by_cases hfits : (wideCharToMultiByte v.units).length < out.length
            · rw [if_neg (Nat.not_lt.2 hfits), if_pos hfits]
              exact ⟨_, rfl, length_putString hfits, .inl rfl⟩
            · rw [if_pos (Nat.lt_succ_of_le (Nat.not_lt.1 hfits)), if_neg hfits]
              exact ⟨_, rfl, hset, .inl rfl⟩

private theorem text_eq_none {slot : List UInt16} : env.text slot = none ↔ env slot = none := Option.map_eq_none_iff

/-- A call that fails leaves every variable. -/
private theorem leaves_of_ne_zero {call : EnvCall} {errno : Nat} (h : errno ≠ 0) (slot : List UInt16)
    (before : Option (List UInt8)) : call.leaves fold slot errno before = before := by
  cases call with
  | get key out => rfl
  | set key val overwrite => exact if_neg fun hz => h hz.1
  | unset key => exact if_neg fun hz => h hz.1

private theorem text_update {slot : List UInt16} {v : Option WString} (other : List UInt16) :
    Environment.text (Function.update env slot v) other =
      if other = slot then v.map (fun v => wideCharToMultiByte v.units) else env.text other := by
  unfold Environment.text
  by_cases h : other = slot
  · rw [if_pos h, h, Function.update_self]
  · rw [if_neg h, Function.update_of_ne h]

private theorem sppcSetenv_spec (fold : UInt16 → UInt16) (env : Environment) (key val : CString) (overwrite : Bool)
    (ans : EnvAnswers) (out : List UInt8) :
    (EnvCall.set key val overwrite).Returns fold env.text ans ⟨(sppcSetenv fold env key val overwrite ans).1, out⟩ ∧
      ∀ slot, (sppcSetenv fold env key val overwrite ans).2.text slot =
        (EnvCall.set key val overwrite).leaves fold slot (sppcSetenv fold env key val overwrite ans).1
        (env.text slot) := by
  have hinval : SPPC_EINVAL ≠ 0 := by decide
  have hnomem : SPPC_ENOMEM ≠ 0 := by decide
  unfold sppcSetenv EnvCall.Returns
  cases hname : nameOf key with
  | none =>
    rw [sppcWinEnvName_of_none hname]
    exact ⟨.inl (by simp [hname]), fun slot => (leaves_of_ne_zero hinval slot _).symm⟩
  | some cs =>
    obtain ⟨w, hunits, hw⟩ := sppcWinEnvName_of_some hname ans.nameMemory
    rw [hw]
    cases hmemory : ans.nameMemory with
    | false => exact ⟨.inr (.inl ⟨by simp, rfl⟩), fun slot => (leaves_of_ne_zero hnomem slot _).symm⟩
    | true =>
      cases hval : Utf8.decode val.chars with
      | none =>
        rw [envValue_of_none hval]
        exact ⟨.inl (by simp [hval]), fun slot => (leaves_of_ne_zero hinval slot _).symm⟩
      | some vs =>
        obtain ⟨v, hv, hvalue⟩ := envValue_of_some hval ans.valueMemory
        rw [hvalue]
        cases hvmemory : ans.valueMemory with
        | false => exact ⟨.inr (.inl ⟨by simp, rfl⟩), fun slot => (leaves_of_ne_zero hnomem slot _).symm⟩
        | true =>
          have htext : wideCharToMultiByte v.units = val.chars := by
            rw [hv, wideCharToMultiByte_wide, Utf8.decode_eq_some_iff.1 hval]
          have hset : ¬(0 < (env.need ans.emptyNeed (w.units.map fold)).1 ∨
              (env.need ans.emptyNeed (w.units.map fold)).2 ≠ ERROR_ENVVAR_NOT_FOUND) ↔
              env (slotOf fold cs) = none := by
            rw [slotOf, ← hunits, ← need_eq_zero ans.emptyNeed, not_or, Nat.pos_iff_ne_zero, not_not, not_not]
          simp only [if_true, hset]
          by_cases hwrite : overwrite ∨ env (slotOf fold cs) = none
          · rw [if_pos hwrite]
            cases hfails : ans.setFails with
            | some e =>
              exact ⟨.inr (.inr ⟨e, rfl, rfl⟩),
                fun slot => (leaves_of_ne_zero (sppcErrnoWin32_ne_zero e) slot _).symm⟩
            | none =>
              refine ⟨.inl (by simp [hname, hval]), fun slot => ?_⟩
              rw [hunits, text_update, Option.map_some, htext, EnvCall.leaves, hname, Option.map_some, ← slotOf]
              by_cases hslot : slot = slotOf fold cs
              · have hover : overwrite ∨ env.text slot = none := by
                  rw [hslot, text_eq_none]
                  exact hwrite
                rw [if_pos hslot, if_pos ⟨rfl, congrArg some hslot.symm, hover⟩]
              · rw [if_neg hslot, if_neg fun h => hslot (Option.some.inj h.2.1).symm]
          · rw [if_neg hwrite]
            refine ⟨.inl (by simp [hname, hval]), fun slot => (if_neg ?_).symm⟩
            rintro ⟨-, hslot, hover⟩
            rw [hname, Option.map_some, Option.some_inj] at hslot
            subst hslot
            rw [text_eq_none] at hover
            exact hwrite hover

private theorem sppcUnsetenv_spec (fold : UInt16 → UInt16) (env : Environment) (key : CString) (ans : EnvAnswers)
    (out : List UInt8) :
    (EnvCall.unset key).Returns fold env.text ans ⟨(sppcUnsetenv fold env key ans).1, out⟩ ∧
      ∀ slot, (sppcUnsetenv fold env key ans).2.text slot =
        (EnvCall.unset key).leaves fold slot (sppcUnsetenv fold env key ans).1 (env.text slot) := by
  have hinval : SPPC_EINVAL ≠ 0 := by decide
  have hnomem : SPPC_ENOMEM ≠ 0 := by decide
  unfold sppcUnsetenv EnvCall.Returns
  cases hname : nameOf key with
  | none =>
    rw [sppcWinEnvName_of_none hname]
    exact ⟨.inl (by simp [hname]), fun slot => (leaves_of_ne_zero hinval slot _).symm⟩
  | some cs =>
    obtain ⟨w, hunits, hw⟩ := sppcWinEnvName_of_some hname ans.nameMemory
    rw [hw]
    cases hmemory : ans.nameMemory with
    | false => exact ⟨.inr (.inl ⟨by simp, rfl⟩), fun slot => (leaves_of_ne_zero hnomem slot _).symm⟩
    | true =>
      have hleaves (slot : List UInt16) : (EnvCall.unset key).leaves fold slot 0 (env.text slot) =
          if slot = slotOf fold cs then none else env.text slot := by
        rw [EnvCall.leaves, hname, Option.map_some]
        exact if_congr ⟨fun h => (Option.some.inj h.2).symm, fun h => ⟨rfl, congrArg some h.symm⟩⟩ rfl rfl
      simp only [if_true, Environment.clear, hunits]
      rw [← slotOf]
      by_cases hmissing : env (slotOf fold cs) = none ∧ ans.missingFails
      · rw [if_pos hmissing]
        refine ⟨.inl (by simp [hname]), fun slot => ?_⟩
        dsimp only
        rw [if_neg (not_not.2 rfl), hleaves]
        by_cases hslot : slot = slotOf fold cs
        · rw [if_pos hslot, hslot, text_eq_none]
          exact hmissing.1
        · rw [if_neg hslot]
      · rw [if_neg hmissing]
        cases hfails : ans.setFails with
        | some e =>
          have hfound : e.code ≠ ERROR_ENVVAR_NOT_FOUND := ans.found e hfails
          dsimp only
          rw [if_pos hfound]
          exact ⟨.inr (.inr ⟨e, rfl, rfl⟩), fun slot => (leaves_of_ne_zero (sppcErrnoWin32_ne_zero e) slot _).symm⟩
        | none =>
          refine ⟨.inl (by simp [hname]), fun slot => ?_⟩
          rw [hleaves]
          exact text_update slot

/-- One call returns as it may, and leaves every variable as its result says. -/
private theorem envStep_spec (fold : UInt16 → UInt16) (env : Environment) (ans : EnvAnswers) (call : EnvCall) :
    ∃ r env', envStep fold env ans call = some (r, env') ∧ call.Returns fold env.text ans r ∧
      ∀ slot, env'.text slot = call.leaves fold slot r.errno (env.text slot) := by
  cases call with
  | get key out =>
    obtain ⟨r, hr, hlength, hreturn⟩ := sppcGetenv_spec fold env key out ans
    exact ⟨⟨r.1, r.2⟩, env, by rw [envStep, hr]; rfl, ⟨hlength, hreturn⟩, fun slot => rfl⟩
  | set key val overwrite =>
    obtain ⟨hreturn, htext⟩ := sppcSetenv_spec fold env key val overwrite ans []
    exact ⟨_, _, rfl, hreturn, htext⟩
  | unset key =>
    obtain ⟨hreturn, htext⟩ := sppcUnsetenv_spec fold env key ans []
    exact ⟨_, _, rfl, hreturn, htext⟩

/-- Over every run of calls each returns as it may by what the variables hold then, and every variable holds what the
last call that changed it left. -/
theorem environment_kept (fold : UInt16 → UInt16) (env : Environment) (calls : List (EnvCall × EnvAnswers)) :
    ∃ rs env', envRun fold env calls = some (rs, env') ∧ rs.length = calls.length ∧
      (∀ slot, env'.text slot = lastLeft fold slot (env.text slot) calls rs) ∧
      ∀ (k : Nat) (call : EnvCall) (ans : EnvAnswers), calls[k]? = some (call, ans) → ∃ r, rs[k]? = some r ∧
        call.Returns fold (fun slot => lastLeft fold slot (env.text slot) (calls.take k) (rs.take k)) ans r := by
  induction calls generalizing env with
  | nil => exact ⟨[], env, rfl, rfl, fun slot => rfl, fun k call ans h => by simp at h⟩
  | cons c calls ih =>
    obtain ⟨call, ans⟩ := c
    obtain ⟨r, env', hstep, hreturn, htext⟩ := envStep_spec fold env ans call
    obtain ⟨rs, env'', hrun, hlength, hlast, hreturns⟩ := ih env'
    refine ⟨r :: rs, env'', ?_, congrArg Nat.succ hlength, fun slot => ?_, ?_⟩
    · rw [envRun, hstep, Option.bind_eq_bind, Option.bind_some]
      dsimp only
      rw [hrun]
      rfl
    · rw [hlast, lastLeft, htext]
    · intro k call' ans' hk
      cases k with
      | zero =>
        obtain ⟨rfl, rfl⟩ := Prod.mk.inj (Option.some.inj hk)
        exact ⟨r, rfl, hreturn⟩
      | succ k =>
        obtain ⟨r', hr', hret⟩ := hreturns k call' ans' hk
        refine ⟨r', hr', ?_⟩
        simpa only [List.take_succ_cons, lastLeft, htext] using hret

end calls

/-- A variable is set, kept, and read into a buffer that is too small and one that is not. -/
example : (envRun id (fun _ => none)
      ([.set ⟨[65], by decide⟩ ⟨[0xC3, 0xA9], by decide⟩ false, .set ⟨[65], by decide⟩ ⟨[66], by decide⟩ false,
        .get ⟨[65], by decide⟩ [1, 1], .get ⟨[65], by decide⟩ [1, 1, 1, 1]].map fun call =>
          (call, ⟨true, true, true, true, none, by simp⟩))).map Prod.fst =
    some [⟨0, []⟩, ⟨0, []⟩, ⟨SPPC_ERANGE, [0, 1]⟩, ⟨0, [0xC3, 0xA9, 0, 1]⟩] := by
  decide +kernel

end Sppc.Windows
