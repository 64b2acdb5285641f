import TestForge.Config
import TestForge.JsonRoundTrip

/-! A configuration written as JSON text and read back. -/
namespace TestForge

open Json Strings

/-! ### Values that lose nothing -/

namespace Json.Value

/-- Faithful at every level. -/
def Sound (value : Value) : Prop := ∀ u ∈ value.subvalues, u.Faithful

@[simp] theorem sound_string (text : Bytes) : (string text).Sound := by
  simp [Sound,subvalues,Faithful,IntFits]

@[simp] theorem sound_bool (b : Bool) : (bool b).Sound := by
  simp [Sound,subvalues,Faithful,IntFits]

theorem sound_int (z : Int) : (int z).Sound ↔ -2^63 ≤ z ∧ z < 2^63 := by
  simp [Sound,subvalues,Faithful,IntFits]

@[simp] theorem sound_int64 (n : Int64) : (int n.toInt).Sound := (sound_int _).mpr ⟨n.le_toInt,n.toInt_lt⟩

@[simp] theorem sound_int32 (n : Int32) : (int n.toInt).Sound := by
  rw [← n.toInt_toInt64]
  exact sound_int64 _

theorem sound_array (items : List Value) : (array items).Sound ↔ ∀ item ∈ items, item.Sound := by
  simp only [Sound,subvalues_array]
  constructor
  · exact fun sound item listed u inside => sound u (.inr ⟨item,listed,inside⟩)
  · rintro sound u (rfl | ⟨item,listed,inside⟩)
    · trivial
    · exact sound item listed u inside

theorem sound_object (members : List (Bytes × Value)) :
    (object members).Sound ↔ (members.map (·.1)).Nodup ∧ ∀ member ∈ members, member.2.Sound := by
  simp only [Sound,subvalues_object]
  constructor
  · exact fun sound => ⟨sound _ (.inl rfl),fun member listed u inside => sound u (.inr ⟨member,listed,inside⟩)⟩
  · rintro ⟨distinct,sound⟩ u (rfl | ⟨member,listed,inside⟩)
    · exact distinct
    · exact sound member listed u inside

theorem Sound.objectOf_eq {members : List (Bytes × Value)} (sound : (object members).Sound) :
    objectOf members = .object members :=
  objectOf_distinct _ ((sound_object members).mp sound).1

end Json.Value

@[simp] theorem stringsToJson_sound (items : List Bytes) : (stringsToJson items).Sound := by
  simp [stringsToJson,Value.sound_array]

/-! ### The sections -/

namespace Settings

theorem narrow_read (n : Int32) : (Int64.ofInt n.toInt).toInt32 = n := by
  rw [← n.toInt_toInt64,Int64.ofInt_toInt,n.toInt32_toInt64]

theorem seed_read (n : UInt64) : (Int64.ofInt n.toInt64.toInt).toUInt64 = n := by
  rw [Int64.ofInt_toInt,n.toUInt64_toInt64]

theorem strings_read_back (items : List Bytes) : (items.map Value.string).filterMap Value.asString? = items :=
  stringsFromJson_stringsToJson items

theorem ExecutionConfig.sound (workers : Int32) (config : ExecutionConfig) :
    (Value.object (config.members workers)).Sound := by
  refine (Value.sound_object _).mpr ⟨?_,by simp [members]⟩
  simp only [members,List.map_cons,List.map_nil]
  decide

theorem ExecutionConfig.read_members (workers : Int32) (config before : ExecutionConfig) :
    read (.object (config.members workers)) before = config :=
  ExecutionConfig.ext (narrow_read _) (Int64.ofInt_toInt _) (Int64.ofInt_toInt _) rfl (narrow_read _) rfl
    (seed_read _) (strings_read_back _)

theorem LoggingConfig.sound (config : LoggingConfig) : (Value.object config.members).Sound := by
  refine (Value.sound_object _).mpr ⟨?_,by simp [members]⟩
  simp only [members,List.map_cons,List.map_nil]
  decide

theorem LoggingConfig.read_members (config before : LoggingConfig) : read (.object config.members) before = config :=
  LoggingConfig.ext (congrArg (·.getD before.level) (LogLevel.logLevelFromString_toString config.level)) rfl rfl rfl

theorem DatabaseConfig.sound (config : DatabaseConfig) : (Value.object config.members).Sound := by
  refine (Value.sound_object _).mpr ⟨?_,by simp [members]⟩
  simp only [members,List.map_cons,List.map_nil]
  decide

theorem DatabaseConfig.read_members (config before : DatabaseConfig) : read (.object config.members) before = config :=
  DatabaseConfig.ext rfl rfl (narrow_read _) (Int64.ofInt_toInt _)

theorem ReportingConfig.sound (config : ReportingConfig) : (Value.object config.members).Sound := by
  refine (Value.sound_object _).mpr ⟨?_,by simp [members]⟩
  simp only [members,List.map_cons,List.map_nil]
  decide

theorem ReportingConfig.read_members (config before : ReportingConfig) :
    read (.object config.members) before = config :=
  ReportingConfig.ext rfl rfl rfl rfl rfl rfl

/-- The headers keep their values only when no name stands twice. -/
theorem ApiTargetConfig.sound (config : ApiTargetConfig) (headers : (Value.object config.defaultHeaders).Sound) :
    (Value.object config.members).Sound := by
  refine (Value.sound_object _).mpr ⟨?_,by simp [members,headersToJson,headers.objectOf_eq,headers]⟩
  simp only [members,List.map_cons,List.map_nil]
  decide

theorem ApiTargetConfig.read_members (config before : ApiTargetConfig)
    (headers : (Value.object config.defaultHeaders).Sound) : read (.object config.members) before = config := by
  unfold members headersToJson
  rw [headers.objectOf_eq]
  exact ApiTargetConfig.ext rfl (Int64.ofInt_toInt _) (Int64.ofInt_toInt _) rfl

theorem AiConfig.sound (config : AiConfig) : (Value.object config.members).Sound := by
  refine (Value.sound_object _).mpr ⟨?_,by simp [members]⟩
  simp only [members,List.map_cons,List.map_nil]
  decide

theorem AiConfig.read_members (config before : AiConfig) : read (.object config.members) before = config :=
  AiConfig.ext rfl rfl rfl (Int64.ofInt_toInt _) (narrow_read _) (Int64.ofInt_toInt _) (strings_read_back _)

theorem DiagnosticsConfig.sound (config : DiagnosticsConfig) : (Value.object config.members).Sound := by
  refine (Value.sound_object _).mpr ⟨?_,by simp [members]⟩
  simp only [members,List.map_cons,List.map_nil]
  decide

theorem DiagnosticsConfig.read_members (config before : DiagnosticsConfig) :
    read (.object config.members) before = config :=
  DiagnosticsConfig.ext rfl rfl rfl rfl (narrow_read _) (Int64.ofInt_toInt _)

theorem ServerConfig.sound (config : ServerConfig) : (Value.object config.members).Sound := by
  refine (Value.sound_object _).mpr ⟨?_,by simp [members]⟩
  simp only [members,List.map_cons,List.map_nil]
  decide

theorem ServerConfig.read_members (config before : ServerConfig) : read (.object config.members) before = config :=
  ServerConfig.ext rfl (narrow_read _) (narrow_read _) rfl (Int64.ofInt_toInt _) (narrow_read _)

/-! ### The whole configuration -/

namespace Config

/-- The document without the path it was loaded from. -/
def document (hardware : UInt32) (config : Config) : List (Bytes × Value) := [
  (ascii "execution",.object (config.execution.members (config.effectiveWorkers hardware))),
  (ascii "logging",.object config.logging.members),
  (ascii "database",.object config.database.members),
  (ascii "reporting",.object config.reporting.members),
  (ascii "api",.object config.api.members),
  (ascii "ai",.object config.ai.members),
  (ascii "diagnostics",.object config.diagnostics.members),
  (ascii "server",.object config.server.members),
  (ascii "custom",config.custom)]

def sourcePathMember (config : Config) : List (Bytes × Value) :=
  if config.sourcePath = [] then [] else [(ascii "source_path",.string config.sourcePath)]

theorem toJson_eq (hardware : UInt32) (config : Config) (headers : (Value.object config.api.defaultHeaders).Sound) :
    config.toJson hardware = .object (config.document hardware ++ config.sourcePathMember) := by
  have whole : Value.objectOf (config.sections hardware) = .object (config.document hardware) := by
    rw [Value.objectOf_distinct]
    · simp only [sections,document,(config.execution.sound _).objectOf_eq,config.logging.sound.objectOf_eq,
        config.database.sound.objectOf_eq,config.reporting.sound.objectOf_eq,
        (config.api.sound headers).objectOf_eq,config.ai.sound.objectOf_eq,config.diagnostics.sound.objectOf_eq,
        config.server.sound.objectOf_eq]
    · simp only [sections,List.map_cons,List.map_nil]
      decide
  unfold toJson sourcePathMember
  rw [whole]
  split
  · rw [List.append_nil]
  · rw [Value.set_fresh]
    simp only [document,List.map_cons,List.map_nil]
    decide

theorem document_sound (hardware : UInt32) (config : Config)
    (headers : (Value.object config.api.defaultHeaders).Sound) (custom : config.custom.Sound) :
    (Value.object (config.document hardware ++ config.sourcePathMember)).Sound := by
  rw [Value.sound_object]
  constructor
  · unfold sourcePathMember
    split <;> simp only [document,List.map_append,List.map_cons,List.map_nil] <;> decide
  · intro member listed
    simp only [document,List.mem_append,List.mem_cons,List.not_mem_nil,or_false] at listed
    rcases listed with (rfl | rfl | rfl | rfl | rfl | rfl | rfl | rfl | rfl) | path
    · exact config.execution.sound _
    · exact config.logging.sound
    · exact config.database.sound
    · exact config.reporting.sound
    · exact config.api.sound headers
    · exact config.ai.sound
    · exact config.diagnostics.sound
    · exact config.server.sound
    · exact custom
    · unfold sourcePathMember at path
      split at path
      · cases path
      · rw [List.mem_singleton.mp path]
        exact Value.sound_string _

/-- Reading what was written restores every setting. -/
theorem fromJson_document (hardware : UInt32) (config : Config) (rest : List (Bytes × Value))
    (headers : (Value.object config.api.defaultHeaders).Sound) :
    fromJson (.object (config.document hardware ++ rest)) = { config with sourcePath := [] } :=
  Config.ext (ExecutionConfig.read_members _ _ _) (LoggingConfig.read_members _ _) (DatabaseConfig.read_members _ _)
    (ReportingConfig.read_members _ _) (ApiTargetConfig.read_members _ _ headers) (AiConfig.read_members _ _)
    (DiagnosticsConfig.read_members _ _) (ServerConfig.read_members _ _) rfl rfl

theorem config_restored (hardware : UInt32) (config : Config) (limits : ParseLimits)
    (distinct : (config.api.defaultHeaders.map (·.1)).Nodup)
    (headers : ∀ header ∈ config.api.defaultHeaders, header.2.Sound) (custom : config.custom.Sound)
    (shallow : (config.toJson hardware).depth ≤ limits.maxDepth)
    (short : (config.toJson hardware).dump.length ≤ limits.maxLength) :
    ∃ root, parse limits (config.toJson hardware).dump = .ok root ∧ fromJson root = { config with sourcePath := [] } := by
  have sound := (Value.sound_object _).mpr ⟨distinct,headers⟩
  have written := config.toJson_eq hardware sound
  have told := config.document_sound hardware sound custom
  rw [← written] at told
  refine ⟨_,Value.parse_dump limits _ (fun u inside => (told u inside).intFits) shallow short,?_⟩
  rw [Value.reread_eq _ told,written]
  exact config.fromJson_document hardware _ sound

/-- The largest seed, two headers and a nested value of the user's own. -/
def sampleConfig : Config where
  execution := { workers := 8, shuffleSeed := 18446744073709551615 }
  api := { defaultHeaders := [(ascii "Authorization",.string (ascii "Bearer x")),(ascii "X-Count",.int 3)] }
  custom := .object [(ascii "regions",.array [.string (ascii "eu"),.null])]
  sourcePath := ascii "testforge.json"

theorem config_restored_sample : ∃ root, parse {} (sampleConfig.toJson 16).dump = .ok root ∧
    fromJson root = { sampleConfig with sourcePath := [] } := by
  have distinct : (sampleConfig.api.defaultHeaders.map (·.1)).Nodup := by decide
  have headers : ∀ header ∈ sampleConfig.api.defaultHeaders, header.2.Sound := by
    simp [sampleConfig,Value.sound_int]
  refine config_restored 16 sampleConfig {} distinct headers
    (show ∀ u ∈ sampleConfig.custom.subvalues, u.Faithful by decide) ?_ ?_
  all_goals
    rw [toJson_eq _ _ ((Value.sound_object _).mpr ⟨distinct,headers⟩)]
    simp only [document,ExecutionConfig.members,LoggingConfig.members,DatabaseConfig.members,
      ReportingConfig.members,ApiTargetConfig.members,AiConfig.members,DiagnosticsConfig.members,
      ServerConfig.members,ascii_eq_literalBytes]
    decide +kernel

end Config
end Settings
end TestForge
