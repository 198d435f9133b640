import Engine.Text.Separated

/-! The readable form of an event log: what `formatDecodedLog` makes of the arguments of an event. -/
namespace Engine.Events

/-- A value in decoded arguments. Numbers and functions are what they print as, and an object, an
array included, is its values. -/
inductive LogArg
  | null
  | undefined
  | string (s : String)
  | bigint (n : ℤ)
  | boolean (b : Bool)
  | number (text : String)
  | function (source : String)
  | object (values : List LogArg)

/-- The decoded arguments: an object or an array, by its properties, inherited ones included. -/
inductive LogArgs
  | undefined
  | properties (property : String → Option LogArg)

/-- What is thrown: all of them are a `TypeError`. -/
inductive TypeError
  /-- `toString` of `undefined`. -/
  | readingToString
  /-- A loop over `inputs` that are missing. -/
  | notIterable
  /-- The `in` operator on `undefined`. -/
  | notAnObject
deriving DecidableEq

structure AbiParameter where
  name : Option String
  type : String
deriving DecidableEq

inductive AbiKind
  | event
  | function
  | error
  | constructor
  | fallback
  | receive
deriving DecidableEq

/-- An entry of a contract's ABI, of any kind. -/
structure AbiEntry where
  type : AbiKind
  name : Option String := none
  inputs : Option (List AbiParameter) := none
deriving DecidableEq

/-- The type and the value of an argument. -/
structure DecodedArg where
  type : String
  value : String
deriving DecidableEq

/-- An object, by its own properties. -/
abbrev DecodedLog := List (String × DecodedArg)

mutual

def logArgToString : LogArg → Except TypeError String
  | .null => .ok ""
  | .undefined => .error .readingToString
  | .string s => .ok s
  | .bigint n => .ok (toString n)
  | .boolean b => .ok (toString b)
  | .number text => .ok text
  | .function source => .ok source
  | .object values => do
    let texts ← logArgsToStrings values
    return join ',' texts

def logArgsToStrings : List LogArg → Except TypeError (List String)
  | [] => .ok []
  | value :: values => do
    let text ← logArgToString value
    let texts ← logArgsToStrings values
    return text :: texts

end

/-- `name in logArgs`, with `logArgs[name]`. -/
def LogArgs.get : LogArgs → String → Except TypeError (Option LogArg)
  | .undefined, _ => .error .notAnObject
  | .properties property, name => .ok (property name)

/-- `res[name] = entry`. A new `__proto__` is not a property of `res` itself. -/
def assign (res : DecodedLog) (name : String) (entry : DecodedArg) : DecodedLog :=
  if name = "__proto__" then res else (name, entry) :: res.filter fun x => x.1 ≠ name

/-- A turn of the loop. -/
def addInput (logArgs : LogArgs) (res : DecodedLog) (input : AbiParameter) : Except TypeError DecodedLog :=
  match truthy input.name with
  | none => return res
  | some name => do
    match ← logArgs.get name with
    | none => return res
    | some arg => do
      let value ← logArgToString arg
      return assign res name ⟨input.type, value⟩

/-- The entry that `abi.find((a) => a.name === eventName)` finds. -/
def signatureOf (abi : List AbiEntry) (eventName : String) : Option AbiEntry :=
  abi.find? fun entry => entry.name = some eventName

def formatDecodedLog (abi : List AbiEntry) (eventName : String) (logArgs : LogArgs) :
    Except TypeError (Option DecodedLog) :=
  match signatureOf abi eventName with
  | none => return none
  | some eventSignature =>
    match eventSignature.inputs with
    | none => throw .notIterable
    | some inputs => do
      let res ← inputs.foldlM (addInput logArgs) []
      return some res

/-! ### Printing a value -/

mutual

/-- Nothing in the value is `undefined`. -/
def LogArg.isDefined : LogArg → Bool
  | .undefined => false
  | .object values => areDefined values
  | _ => true

def areDefined : List LogArg → Bool
  | [] => true
  | value :: values => value.isDefined && areDefined values

end

mutual

theorem exists_logArgToString_iff : (arg : LogArg) →
    ((∃ text, logArgToString arg = .ok text) ↔ arg.isDefined = true)
  | .null => by simp [logArgToString, LogArg.isDefined]
  | .undefined => by simp [logArgToString, LogArg.isDefined]
  | .string s => by simp [logArgToString, LogArg.isDefined]
  | .bigint n => by simp [logArgToString, LogArg.isDefined]
  | .boolean b => by simp [logArgToString, LogArg.isDefined]
  | .number text => by simp [logArgToString, LogArg.isDefined]
  | .function source => by simp [logArgToString, LogArg.isDefined]
  | .object values => by
    have ih := exists_logArgsToStrings_iff values
    unfold logArgToString LogArg.isDefined
    rw [← ih]
    cases logArgsToStrings values with
    | ok texts => simp [bind, Except.bind, pure, Except.pure]
    | error e => simp [bind, Except.bind]

theorem exists_logArgsToStrings_iff : (values : List LogArg) →
    ((∃ texts, logArgsToStrings values = .ok texts) ↔ areDefined values = true)
  | [] => by simp [logArgsToStrings, areDefined]
  | value :: values => by
    have hvalue := exists_logArgToString_iff value
    have hvalues := exists_logArgsToStrings_iff values
    unfold logArgsToStrings areDefined
    rw [Bool.and_eq_true, ← hvalue, ← hvalues]
    cases logArgToString value with
    | ok text =>
      cases logArgsToStrings values with
      | ok texts => simp [bind, Except.bind, pure, Except.pure]
      | error e => simp [bind, Except.bind]
    | error e => simp [bind, Except.bind]

end

/-! ### The loop over the inputs -/

section
variable {logArgs : LogArgs} {input : AbiParameter} {inputs : List AbiParameter} {name : String}
  {res res' : DecodedLog}

/-- The arguments can be asked for the input, and print under its name. -/
def Reads (logArgs : LogArgs) (input : AbiParameter) : Prop := ∀ name, truthy input.name = some name →
  ∃ property, logArgs = .properties property ∧ ∀ arg, property name = some arg → arg.isDefined = true

/-- What the arguments print as under a name. -/
def LogArgs.text (logArgs : LogArgs) (name : String) : Option String :=
  match logArgs with
  | .undefined => none
  | .properties property => (property name).bind fun arg => (logArgToString arg).toOption

/-- What an input adds. -/
def entryOf (logArgs : LogArgs) (input : AbiParameter) (name : String) : Option DecodedArg :=
  if truthy input.name = some name ∧ name ≠ "__proto__" then (logArgs.text name).map (DecodedArg.mk input.type)
  else none

/-- What the inputs add: the last input of a name is kept. -/
def entriesOf (logArgs : LogArgs) : List AbiParameter → String → Option DecodedArg
  | [] => fun _ => none
  | input :: inputs => fun name => (entriesOf logArgs inputs name).or (entryOf logArgs input name)

private theorem lookup_filter_ne (res : DecodedLog) {name name' : String} (h : name' ≠ name) :
    (res.filter fun x => x.1 ≠ name).lookup name' = res.lookup name' := by
  induction res with
  | nil => rfl
  | cons x res ih =>
    obtain ⟨key, entry⟩ := x
    by_cases hkey : key = name
    · have hne : (name' == key) = false := beq_false_of_ne (hkey ▸ h)
      rw [List.filter_cons_of_neg (by simp [hkey]), ih, List.lookup_cons, hne]
    · rw [List.filter_cons_of_pos (by simp [hkey]), List.lookup_cons, List.lookup_cons, ih]

private theorem lookup_assign (res : DecodedLog) (name name' : String) (entry : DecodedArg) :
    (assign res name entry).lookup name' =
      if name' = name ∧ name ≠ "__proto__" then some entry else res.lookup name' := by
  unfold assign
  by_cases hproto : name = "__proto__"
  · simp [hproto]
  · rw [if_neg hproto, List.lookup_cons]
    by_cases hname : name' = name
    · simp [hname, hproto]
    · have hne : (name' == name) = false := beq_false_of_ne hname
      rw [hne, lookup_filter_ne res hname, if_neg fun h => hname h.1]

theorem addInput_of_reads (h : Reads logArgs input) (res : DecodedLog) :
    ∃ res', addInput logArgs res input = .ok res' ∧
      ∀ name, res'.lookup name = (entryOf logArgs input name).or (res.lookup name) := by
  unfold addInput
  cases hname : truthy input.name with
  | none =>
    refine ⟨res, rfl, fun name => ?_⟩
    unfold entryOf
    rw [hname, if_neg (by simp)]
    rfl
  | some name =>
    obtain ⟨property, rfl, hdefined⟩ := h name hname
    dsimp only [LogArgs.get]
    cases harg : property name with
    | none =>
      refine ⟨res, rfl, fun name' => ?_⟩
      unfold entryOf LogArgs.text
      split_ifs with hsame
      · have hn : name' = name := (Option.some.inj (hname.symm.trans hsame.1)).symm
        dsimp only
        rw [hn, harg]
        rfl
      · rfl
    | some arg =>
      obtain ⟨text, htext⟩ := exists_logArgToString_iff arg |>.mpr (hdefined arg harg)
      refine ⟨assign res name ⟨input.type, text⟩, by simp [bind, Except.bind, htext, pure, Except.pure], ?_⟩
      intro name'
      rw [lookup_assign]
      unfold entryOf LogArgs.text
      simp only [hname, Option.some.injEq]
      by_cases hn : name' = name
      · subst hn
        rw [harg, Option.bind_some, htext]
        by_cases hproto : name' = "__proto__"
        · simp [hproto]
        · simp [hproto, Except.toOption]
      · rw [if_neg fun h => hn h.1, if_neg fun h => hn h.1.symm]
        rfl

private theorem addInput_of_not_reads (h : ¬ Reads logArgs input) (res : DecodedLog) :
    ∃ e, addInput logArgs res input = .error e := by
  obtain ⟨name, hname⟩ := not_forall.mp h
  obtain ⟨hname, hproperty⟩ := Classical.not_imp.mp hname
  unfold addInput
  rw [hname]
  cases logArgs with
  | undefined => exact ⟨.notAnObject, rfl⟩
  | properties property =>
    dsimp only [LogArgs.get]
    cases harg : property name with
    | none =>
      refine absurd ⟨property, rfl, fun arg h => ?_⟩ hproperty
      rw [harg] at h
      cases h
    | some arg =>
      cases htext : logArgToString arg with
      | ok text =>
        refine absurd ⟨property, rfl, fun arg' h => ?_⟩ hproperty
        rw [harg] at h
        cases h
        exact (exists_logArgToString_iff arg).mp ⟨text, htext⟩
      | error e => exact ⟨e, by simp [bind, Except.bind, htext]⟩

/-- The loop ends well if the arguments can be read for each input. -/
theorem foldlM_addInput (h : ∀ input ∈ inputs, Reads logArgs input) (res : DecodedLog) :
    ∃ res', inputs.foldlM (addInput logArgs) res = .ok res' ∧
      ∀ name, res'.lookup name = (entriesOf logArgs inputs name).or (res.lookup name) := by
  induction inputs generalizing res with
  | nil => exact ⟨res, rfl, fun _ => rfl⟩
  | cons input inputs ih =>
    obtain ⟨hinput, hinputs⟩ := List.forall_mem_cons.mp h
    obtain ⟨res₁, hfirst, hlookup⟩ := addInput_of_reads hinput res
    obtain ⟨res₂, hrest, hlookup'⟩ := ih hinputs res₁
    rw [List.foldlM_cons, hfirst]
    refine ⟨res₂, hrest, fun name => ?_⟩
    rw [hlookup', hlookup]
    exact Option.or_assoc.symm

/-- And only then. -/
theorem reads_of_foldlM (h : inputs.foldlM (addInput logArgs) res = .ok res') :
    ∀ input ∈ inputs, Reads logArgs input := by
  induction inputs generalizing res with
  | nil => exact fun _ hmem => absurd hmem List.not_mem_nil
  | cons input inputs ih =>
    rw [List.foldlM_cons] at h
    by_cases hreads : Reads logArgs input
    · obtain ⟨res₁, hfirst, -⟩ := addInput_of_reads hreads res
      rw [hfirst] at h
      exact List.forall_mem_cons.mpr ⟨hreads, ih h⟩
    · obtain ⟨e, he⟩ := addInput_of_not_reads hreads res
      rw [he] at h
      cases h

/-- The type that the last input of a name declares. -/
def declared : List AbiParameter → String → Option String
  | [], _ => none
  | input :: inputs, name =>
    (declared inputs name).or (if truthy input.name = some name then some input.type else none)

theorem exists_of_declared {type : String} (h : declared inputs name = some type) :
    ∃ input ∈ inputs, truthy input.name = some name := by
  induction inputs with
  | nil => cases h
  | cons input inputs ih =>
    unfold declared at h
    obtain h | ⟨-, h⟩ := Option.or_eq_some_iff.mp h
    · obtain ⟨input', hmem, hname⟩ := ih h
      exact ⟨input', List.mem_cons_of_mem _ hmem, hname⟩
    · split_ifs at h with hname
      exact ⟨input, List.mem_cons_self, hname⟩

/-- An entry has the declared type, and prints the argument of its name. -/
theorem entriesOf_eq : entriesOf logArgs inputs name =
    if name = "__proto__" then none
    else (declared inputs name).bind fun type => (logArgs.text name).map (DecodedArg.mk type) := by
  induction inputs with
  | nil => simp [entriesOf, declared]
  | cons input inputs ih =>
    unfold entriesOf declared entryOf
    rw [ih]
    by_cases hproto : name = "__proto__"
    · simp [hproto]
    · cases htext : logArgs.text name with
      | none => simp
      | some text =>
        cases htype : declared inputs name with
        | some type => simp [hproto]
        | none => by_cases hname : truthy input.name = some name <;> simp [hproto, hname]

theorem entriesOf_eq_some {arg : DecodedArg} : entriesOf logArgs inputs name = some arg ↔
    name ≠ "__proto__" ∧ declared inputs name = some arg.type ∧ logArgs.text name = some arg.value := by
  rw [entriesOf_eq]
  split_ifs with hproto
  · simp [hproto]
  · cases arg
    simp [hproto, Option.bind_eq_some_iff]

theorem text_eq_some {text : String} : logArgs.text name = some text ↔
    ∃ property arg, logArgs = .properties property ∧ property name = some arg ∧ logArgToString arg = .ok text := by
  unfold LogArgs.text
  cases logArgs with
  | undefined => simp
  | properties property =>
    simp only [Option.bind_eq_some_iff, LogArgs.properties.injEq]
    constructor
    · intro h
      obtain ⟨arg, harg, htext⟩ := h
      cases hprint : logArgToString arg with
      | ok text' =>
        rw [hprint] at htext
        cases htext
        exact ⟨property, arg, rfl, harg, hprint⟩
      | error e =>
        rw [hprint] at htext
        cases htext
    · intro h
      obtain ⟨property, arg, rfl, harg, htext⟩ := h
      exact ⟨arg, harg, by rw [htext]; rfl⟩

end

/-! ### The event that was emitted -/

/-- An event as it was emitted: its name, and its inputs with their arguments. -/
structure Emitted where
  name : String
  arguments : List (AbiParameter × LogArg)

def Emitted.inputs (event : Emitted) : List AbiParameter := event.arguments.map Prod.fst

/-- The ABI contains the event. -/
def Contains (abi : List AbiEntry) (event : Emitted) : Prop :=
  ∃ entry ∈ abi, entry.type = .event ∧ entry.name = some event.name ∧ entry.inputs = some event.inputs

/-- The result describes the event: nothing is thrown, and there is an entry for each named argument and
for nothing else. -/
structure Describes (abi : List AbiEntry) (event : Emitted) (result : Except TypeError (Option DecodedLog)) : Prop where
  returned : ∃ decoded, result = .ok decoded
  defined : Contains abi event → ∃ res, result = .ok (some res)
  complete : ∀ res, result = .ok (some res) → ∀ argument ∈ event.arguments, ∀ name,
    truthy argument.1.name = some name →
      ∃ value, logArgToString argument.2 = .ok value ∧ res.lookup name = some ⟨argument.1.type, value⟩
  sound : ∀ res, result = .ok (some res) → ∀ name arg, res.lookup name = some arg →
    ∃ argument ∈ event.arguments, truthy argument.1.name = some name

/-- The inputs are as good as those of the event: the arguments can be read for them, they declare
the event's named arguments, which are found under their names, and nothing else that is found. -/
structure Matches (inputs : List AbiParameter) (logArgs : LogArgs) (event : Emitted) : Prop where
  readable : ∀ input ∈ inputs, Reads logArgs input
  covers : ∀ argument ∈ event.arguments, ∀ name, truthy argument.1.name = some name →
    name ≠ "__proto__" ∧ declared inputs name = some argument.1.type ∧
      ∃ property arg, logArgs = .properties property ∧ property name = some arg ∧
        logArgToString arg = logArgToString argument.2
  nothingElse : ∀ property name type arg, logArgs = .properties property → property name = some arg →
    name ≠ "__proto__" → declared inputs name = some type →
      ∃ argument ∈ event.arguments, truthy argument.1.name = some name

section
variable {abi : List AbiEntry} {event : Emitted} {logArgs : LogArgs} {inputs : List AbiParameter} {res : DecodedLog}

theorem formatDecodedLog_of_inputs {eventName : String} {signature : AbiEntry}
    (hsignature : signatureOf abi eventName = some signature) (hinputs : signature.inputs = some inputs) :
    formatDecodedLog abi eventName logArgs = (inputs.foldlM (addInput logArgs) []).map some := by
  unfold formatDecodedLog
  rw [hsignature]
  dsimp only
  rw [hinputs]
  dsimp only
  cases inputs.foldlM (addInput logArgs) [] with
  | ok res' => rfl
  | error e => rfl

theorem formatDecodedLog_of_reads {eventName : String} {signature : AbiEntry}
    (hsignature : signatureOf abi eventName = some signature) (hinputs : signature.inputs = some inputs)
    (hreads : ∀ input ∈ inputs, Reads logArgs input) :
    ∃ res, formatDecodedLog abi eventName logArgs = .ok (some res) ∧
      ∀ name, res.lookup name = entriesOf logArgs inputs name := by
  obtain ⟨res, hloop, hlookup⟩ := foldlM_addInput hreads []
  refine ⟨res, by rw [formatDecodedLog_of_inputs hsignature hinputs, hloop]; rfl, fun name => ?_⟩
  rw [hlookup]
  exact Option.or_none

theorem reads_of_formatDecodedLog {eventName : String} {signature : AbiEntry} {decoded : Option DecodedLog}
    (hsignature : signatureOf abi eventName = some signature)
    (h : formatDecodedLog abi eventName logArgs = .ok decoded) :
    ∃ inputs, signature.inputs = some inputs ∧ ∀ input ∈ inputs, Reads logArgs input := by
  cases hinputs : signature.inputs with
  | none =>
    unfold formatDecodedLog at h
    rw [hsignature] at h
    dsimp only at h
    rw [hinputs] at h
    cases h
  | some inputs =>
    rw [formatDecodedLog_of_inputs hsignature hinputs] at h
    cases hloop : inputs.foldlM (addInput logArgs) [] with
    | ok res => exact ⟨inputs, rfl, reads_of_foldlM hloop⟩
    | error e =>
      rw [hloop] at h
      cases h

/-- The first entry of the ABI with the event's name has inputs, and the arguments can be read for each of them. -/
def Formats (abi : List AbiEntry) (eventName : String) (logArgs : LogArgs) : Prop :=
  ∀ signature, signatureOf abi eventName = some signature →
    ∃ inputs, signature.inputs = some inputs ∧ ∀ input ∈ inputs, Reads logArgs input

theorem exists_formatDecodedLog_iff {eventName : String} :
    (∃ decoded, formatDecodedLog abi eventName logArgs = .ok decoded) ↔ Formats abi eventName logArgs := by
  constructor
  · intro h signature hsignature
    obtain ⟨decoded, hdecoded⟩ := h
    exact reads_of_formatDecodedLog hsignature hdecoded
  · intro h
    cases hsignature : signatureOf abi eventName with
    | none =>
      unfold formatDecodedLog
      rw [hsignature]
      exact ⟨none, rfl⟩
    | some signature =>
      obtain ⟨inputs, hinputs, hreads⟩ := h signature hsignature
      obtain ⟨res, hres, -⟩ := formatDecodedLog_of_reads hsignature hinputs hreads
      exact ⟨some res, hres⟩

private theorem contains_isSome (h : Contains abi event) :
    ∃ signature, signatureOf abi event.name = some signature := by
  obtain ⟨entry, hmem, -, hname, -⟩ := h
  unfold signatureOf
  rw [← Option.isSome_iff_exists, List.find?_isSome]
  exact ⟨entry, hmem, decide_eq_true hname⟩

/-- With the inputs that are found, the result describes the event exactly when they match it. -/
theorem describes_iff_matches {signature : AbiEntry} (hsignature : signatureOf abi event.name = some signature)
    (hinputs : signature.inputs = some inputs) :
    Describes abi event (formatDecodedLog abi event.name logArgs) ↔ Matches inputs logArgs event := by
  constructor
  · intro h
    obtain ⟨decoded, hdecoded⟩ := h.returned
    obtain ⟨inputs', hinputs', hreads⟩ := reads_of_formatDecodedLog hsignature hdecoded
    obtain rfl := Option.some.inj (hinputs.symm.trans hinputs')
    obtain ⟨res, hresult, hlookup⟩ := formatDecodedLog_of_reads hsignature hinputs hreads
    refine ⟨hreads, ?_, ?_⟩
    · intro argument hmem name hname
      obtain ⟨value, hvalue, hentry⟩ := h.complete _ hresult argument hmem name hname
      rw [hlookup] at hentry
      obtain ⟨hproto, htype, htext⟩ := entriesOf_eq_some.mp hentry
      obtain ⟨property, arg, hargs, harg, hprint⟩ := text_eq_some.mp htext
      exact ⟨hproto, htype, property, arg, hargs, harg, hprint.trans hvalue.symm⟩
    · intro property name type arg hargs harg hproto htype
      obtain ⟨input, hmem, hname⟩ := exists_of_declared htype
      obtain ⟨property', hargs', hdefined⟩ := hreads input hmem name hname
      obtain rfl := LogArgs.properties.inj (hargs.symm.trans hargs')
      obtain ⟨text, htext⟩ := (exists_logArgToString_iff arg).mpr (hdefined arg harg)
      have hentry : entriesOf logArgs inputs name = some ⟨type, text⟩ :=
        entriesOf_eq_some.mpr ⟨hproto, htype, text_eq_some.mpr ⟨property, arg, hargs, harg, htext⟩⟩
      exact h.sound _ hresult name ⟨type, text⟩ ((hlookup name).trans hentry)
  · intro h
    obtain ⟨found, hresult, hlookup⟩ := formatDecodedLog_of_reads hsignature hinputs h.readable
    have hres : ∀ res, formatDecodedLog abi event.name logArgs = .ok (some res) → res = found :=
      fun res hres => Option.some.inj (Except.ok.inj (hres.symm.trans hresult))
    refine ⟨⟨_, hresult⟩, fun _ => ⟨_, hresult⟩, ?_, ?_⟩
    · intro res hdecoded argument hmem name hname
      obtain ⟨hproto, htype, property, arg, hargs, harg, hprint⟩ := h.covers argument hmem name hname
      obtain ⟨input, hinput, hinputName⟩ := exists_of_declared htype
      obtain ⟨property', hargs', hdefined⟩ := h.readable input hinput name hinputName
      obtain rfl := LogArgs.properties.inj (hargs.symm.trans hargs')
      obtain ⟨text, htext⟩ := (exists_logArgToString_iff arg).mpr (hdefined arg harg)
      refine ⟨text, hprint.symm.trans htext, ?_⟩
      rw [hres res hdecoded, hlookup]
      exact entriesOf_eq_some.mpr ⟨hproto, htype, text_eq_some.mpr ⟨property, arg, hargs, harg, htext⟩⟩
    · intro res hdecoded name arg hentry
      rw [hres res hdecoded, hlookup] at hentry
      obtain ⟨hproto, htype, htext⟩ := entriesOf_eq_some.mp hentry
      obtain ⟨property, value, hargs, hvalue, -⟩ := text_eq_some.mp htext
      exact h.nothingElse property name _ value hargs hvalue hproto htype

end

/-- A decoded log describes the emitted event exactly when the first entry of the ABI with the event's
name, of whatever kind, has inputs that match the event. -/
theorem describes_iff (abi : List AbiEntry) (event : Emitted) (logArgs : LogArgs) :
    Describes abi event (formatDecodedLog abi event.name logArgs) ↔
      ∀ signature, signatureOf abi event.name = some signature →
        ∃ inputs, signature.inputs = some inputs ∧ Matches inputs logArgs event := by
  constructor
  · intro h signature hsignature
    obtain ⟨decoded, hdecoded⟩ := h.returned
    obtain ⟨inputs, hinputs, -⟩ := reads_of_formatDecodedLog hsignature hdecoded
    exact ⟨inputs, hinputs, (describes_iff_matches hsignature hinputs).mp h⟩
  · intro h
    cases hsignature : signatureOf abi event.name with
    | some signature =>
      obtain ⟨inputs, hinputs, hmatches⟩ := h signature hsignature
      exact (describes_iff_matches hsignature hinputs).mpr hmatches
    | none =>
      have hresult : formatDecodedLog abi event.name logArgs = .ok none := by
        unfold formatDecodedLog
        rw [hsignature]
        rfl
      refine ⟨⟨none, hresult⟩, fun hcontains => ?_, fun res hres => ?_, fun res hres => ?_⟩
      · obtain ⟨signature, hfound⟩ := contains_isSome hcontains
        rw [hsignature] at hfound
        cases hfound
      · cases hres.symm.trans hresult
      · cases hres.symm.trans hresult

/-! ### Events with named arguments -/

/-- What every object inherits. -/
def objectPrototype : List (String × LogArg) :=
  ("constructor", .function "function Object() \x7b [native code] \x7d") :: ("__proto__", .object []) ::
    ["hasOwnProperty", "isPrototypeOf", "propertyIsEnumerable", "toLocaleString", "toString", "valueOf",
      "__defineGetter__", "__defineSetter__", "__lookupGetter__", "__lookupSetter__"].map fun name =>
        (name, .function ("function " ++ name ++ "() \x7b [native code] \x7d"))

/-- The decoded arguments of an event whose inputs are all named: an object, or nothing. -/
def decodedArgs (event : Emitted) : LogArgs :=
  match event.arguments with
  | [] => .undefined
  | arguments => .properties fun name =>
    ((arguments.find? fun argument => argument.1.name = some name).map Prod.snd).or (objectPrototype.lookup name)

/-- The inputs have names of their own, which are no empty texts. -/
structure Named (event : Emitted) : Prop where
  named : ∀ argument ∈ event.arguments, ∃ name, truthy argument.1.name = some name
  distinct : (event.arguments.map fun argument => argument.1.name).Nodup

section
variable {event : Emitted} {arguments : List (AbiParameter × LogArg)} {argument : AbiParameter × LogArg} {name : String}

theorem eq_of_truthy {text : Option String} (h : truthy text = some name) : text = some name :=
  (Option.filter_eq_some_iff.mp h).1

private theorem declared_of_mem (hdistinct : (arguments.map fun argument => argument.1.name).Nodup)
    (hmem : argument ∈ arguments) (hname : truthy argument.1.name = some name) :
    declared (arguments.map Prod.fst) name = some argument.1.type := by
  induction arguments with
  | nil => cases hmem
  | cons first arguments ih =>
    obtain ⟨hfirst, hdistinct⟩ := List.nodup_cons.mp hdistinct
    rw [List.map_cons]
    unfold declared
    obtain rfl | hmem := List.mem_cons.mp hmem
    · have hnone : declared (arguments.map Prod.fst) name = none := by
        rw [Option.eq_none_iff_forall_ne_some]
        intro type htype
        obtain ⟨input, hinput, hinputName⟩ := exists_of_declared htype
        obtain ⟨other, hother, rfl⟩ := List.mem_map.mp hinput
        refine hfirst (List.mem_map.mpr ⟨other, hother, ?_⟩)
        exact (eq_of_truthy hinputName).trans (eq_of_truthy hname).symm
      rw [hnone, if_pos hname]
      rfl
    · rw [ih hdistinct hmem]
      rfl

private theorem find_of_mem (hdistinct : (arguments.map fun argument => argument.1.name).Nodup)
    (hmem : argument ∈ arguments) (hname : argument.1.name = some name) :
    (arguments.find? fun argument => argument.1.name = some name) = some argument := by
  induction arguments with
  | nil => cases hmem
  | cons first arguments ih =>
    obtain ⟨hfirst, hdistinct⟩ := List.nodup_cons.mp hdistinct
    rw [List.find?_cons]
    obtain rfl | hmem := List.mem_cons.mp hmem
    · simp [hname]
    · have hne : first.1.name ≠ some name := fun h => hfirst (List.mem_map.mpr ⟨argument, hmem, hname.trans h.symm⟩)
      simp [hne, ih hdistinct hmem]

/-- The inputs of the event itself match it, unless an argument is undefined somewhere. -/
theorem matches_self (hnamed : Named event) (hproto : ∀ argument ∈ event.arguments, argument.1.name ≠ some "__proto__")
    (hdefined : ∀ argument ∈ event.arguments, argument.2.isDefined = true) :
    Matches event.inputs (decodedArgs event) event := by
  have hargs : ∀ argument ∈ event.arguments, ∀ name, truthy argument.1.name = some name →
      ∃ property, decodedArgs event = .properties property ∧ property name = some argument.2 := by
    intro argument hmem name hname
    unfold decodedArgs
    cases harguments : event.arguments with
    | nil =>
      rw [harguments] at hmem
      cases hmem
    | cons first arguments =>
      refine ⟨_, rfl, ?_⟩
      rw [← harguments, find_of_mem hnamed.distinct hmem (eq_of_truthy hname)]
      rfl
  refine ⟨?_, ?_, ?_⟩
  · intro input hinput name hname
    obtain ⟨argument, hmem, rfl⟩ := List.mem_map.mp hinput
    obtain ⟨property, hproperty, hvalue⟩ := hargs argument hmem name hname
    refine ⟨property, hproperty, fun arg harg => ?_⟩
    rw [hvalue] at harg
    exact Option.some.inj harg ▸ hdefined argument hmem
  · intro argument hmem name hname
    obtain ⟨property, hproperty, hvalue⟩ := hargs argument hmem name hname
    refine ⟨?_, declared_of_mem hnamed.distinct hmem hname, property, argument.2, hproperty, hvalue, rfl⟩
    rintro rfl
    exact hproto argument hmem (eq_of_truthy hname)
  · intro property name type arg _ _ _ htype
    obtain ⟨input, hinput, hname⟩ := exists_of_declared htype
    obtain ⟨argument, hmem, rfl⟩ := List.mem_map.mp hinput
    exact ⟨argument, hmem, hname⟩

/-- An event that is found under its own name is described. -/
theorem describes_self {abi : List AbiEntry} {signature : AbiEntry}
    (hsignature : signatureOf abi event.name = some signature) (hinputs : signature.inputs = some event.inputs)
    (hnamed : Named event) (hproto : ∀ argument ∈ event.arguments, argument.1.name ≠ some "__proto__")
    (hdefined : ∀ argument ∈ event.arguments, argument.2.isDefined = true) :
    Describes abi event (formatDecodedLog abi event.name (decodedArgs event)) :=
  (describes_iff_matches hsignature hinputs).mpr (matches_self hnamed hproto hdefined)

end

/-- `Deposit(address account)`, and the overload `Deposit(uint256 amount)`. -/
def depositAbi : List AbiEntry :=
  [{ type := .event, name := some "Deposit", inputs := some [⟨some "account", "address"⟩] },
    { type := .event, name := some "Deposit", inputs := some [⟨some "amount", "uint256"⟩] }]

/-- The second of the two, with an amount of 5. -/
def deposit : Emitted := ⟨"Deposit", [(⟨some "amount", "uint256"⟩, .bigint 5)]⟩

/-- The overload is decoded with the inputs of the other event, and its argument is lost. -/
theorem not_describes : ¬ ∀ (abi : List AbiEntry) (event : Emitted), Named event → Contains abi event →
    Describes abi event (formatDecodedLog abi event.name (decodedArgs event)) := by
  intro hgeneral
  have hnamed : Named deposit := by
    constructor
    · intro argument hmem
      rw [List.mem_singleton.mp hmem]
      exact ⟨"amount", by decide⟩
    · decide
  have hdescribes := hgeneral depositAbi deposit hnamed ⟨_, List.mem_cons_of_mem _ List.mem_cons_self, rfl, rfl, rfl⟩
  have hsignature : signatureOf depositAbi deposit.name =
      some { type := .event, name := some "Deposit", inputs := some [⟨some "account", "address"⟩] } := by decide
  have hmatches : Matches [⟨some "account", "address"⟩] (decodedArgs deposit) deposit :=
    (describes_iff_matches hsignature rfl).mp hdescribes
  obtain ⟨-, htype, -⟩ := hmatches.covers _ List.mem_cons_self "amount" (by decide)
  revert htype
  decide

end Engine.Events
