/-
The bundled library, as Kotlin source.

Generated code refers to these classes and functions. They are written next to it on
request, each file under its path.
-/
namespace ModelForge.Library

/-- The marker annotations and those that add fields. -/
def annotationLines : List String :=
  [
    "package modelsmith.annotation",
    "",
    "import kotlin.reflect.KClass",
    "import kotlinx.datetime.Instant",
    "import modelsmith.core.valueobject.PositiveInt",
    "",
    "/**",
    " * Generates \x60<name>\x60, \x60<name>Params\x60, \x60<name>Builder\x60 and \x60<name>FieldFailure\x60 from an interface.",
    " */",
    "@Target(AnnotationTarget.CLASS)",
    "@Retention(AnnotationRetention.SOURCE)",
    "annotation class ModelTemplate(val name: String)",
    "",
    "/**",
    " * Generates \x60<X>FieldFailure\x60 and \x60X.Companion.of\x60 for a data class with a companion object.",
    " */",
    "@Target(AnnotationTarget.CLASS)",
    "@Retention(AnnotationRetention.SOURCE)",
    "annotation class Validatable",
    "",
    "/**",
    " * Excludes a property from params and builder.",
    " */",
    "@Target(AnnotationTarget.PROPERTY)",
    "@Retention(AnnotationRetention.SOURCE)",
    "annotation class External",
    "",
    "/**",
    " * Adds a property to the model. Can be stacked on other annotations.",
    " */",
    "@Repeatable",
    "@Target(AnnotationTarget.CLASS, AnnotationTarget.ANNOTATION_CLASS)",
    "@Retention(AnnotationRetention.SOURCE)",
    "annotation class AddField(val name: String, val type: KClass<*>, val ignore: Boolean = true)",
    "",
    "@AddField(name = \"created\", type = Instant::class)",
    "@Target(AnnotationTarget.CLASS, AnnotationTarget.ANNOTATION_CLASS)",
    "@Retention(AnnotationRetention.SOURCE)",
    "annotation class HasCreated",
    "",
    "@AddField(name = \"updated\", type = Instant::class)",
    "@Target(AnnotationTarget.CLASS, AnnotationTarget.ANNOTATION_CLASS)",
    "@Retention(AnnotationRetention.SOURCE)",
    "annotation class HasUpdated",
    "",
    "@HasUpdated",
    "@HasCreated",
    "@Target(AnnotationTarget.CLASS, AnnotationTarget.ANNOTATION_CLASS)",
    "@Retention(AnnotationRetention.SOURCE)",
    "annotation class HasCreatedAndUpdated",
    "",
    "@AddField(name = \"creatorId\", type = PositiveInt::class, ignore = false)",
    "@Target(AnnotationTarget.CLASS, AnnotationTarget.ANNOTATION_CLASS)",
    "@Retention(AnnotationRetention.SOURCE)",
    "annotation class HasCreatorId",
    "",
    "@AddField(name = \"updaterId\", type = PositiveInt::class, ignore = false)",
    "@Target(AnnotationTarget.CLASS, AnnotationTarget.ANNOTATION_CLASS)",
    "@Retention(AnnotationRetention.SOURCE)",
    "annotation class HasUpdaterId",
    "",
    "@HasCreatorId",
    "@HasCreated",
    "@Target(AnnotationTarget.CLASS, AnnotationTarget.ANNOTATION_CLASS)",
    "@Retention(AnnotationRetention.SOURCE)",
    "annotation class Creatable",
    "",
    "@HasUpdaterId",
    "@HasUpdated",
    "@Target(AnnotationTarget.CLASS, AnnotationTarget.ANNOTATION_CLASS)",
    "@Retention(AnnotationRetention.SOURCE)",
    "annotation class Updatable",
    "",
    "@Updatable",
    "@Creatable",
    "@Target(AnnotationTarget.CLASS, AnnotationTarget.ANNOTATION_CLASS)",
    "@Retention(AnnotationRetention.SOURCE)",
    "annotation class CreatableAndUpdatable",
    "",
    "/**",
    " * Adds \x60name(...)\x60 to both the model and params companions. Properties",
    " * re-declared by the annotated private interface are accepted already validated.",
    " */",
    "@Target(AnnotationTarget.CLASS)",
    "@Retention(AnnotationRetention.SOURCE)",
    "annotation class ValidationTemplate(val name: String)",
    "",
    "@Target(AnnotationTarget.CLASS)",
    "@Retention(AnnotationRetention.SOURCE)",
    "annotation class ModelValidationTemplate(val name: String)",
    "",
    "@Target(AnnotationTarget.CLASS)",
    "@Retention(AnnotationRetention.SOURCE)",
    "annotation class ParamsValidationTemplate(val name: String)"
  ]

/-- Value objects and their failures. -/
def valueObjectLines : List String :=
  [
    "package modelsmith.core",
    "",
    "/**",
    " * A value whose only construction path is a validating factory.",
    " */",
    "interface ValueObject<T> \x7b",
    "    val value: T",
    "\x7d",
    "",
    "interface ValueFailure<I> \x7b",
    "    val failedValue: I",
    "\x7d",
    "",
    "data class GenericValueFailure<I>(override val failedValue: I) : ValueFailure<I>",
    "",
    "data class StringLengthRangeFailure(",
    "    override val failedValue: String,",
    "    val minLength: Int,",
    "    val maxLength: Int,",
    ") : ValueFailure<String>",
    "",
    "interface LengthRange \x7b",
    "    val minLength: Int",
    "    val maxLength: Int",
    "\x7d"
  ]

/-- The validator interface with its overloads for null and for options. -/
def validatorInterfaceLines : List String :=
  [
    "package modelsmith.core",
    "",
    "import arrow.core.Either",
    "import arrow.core.None",
    "import arrow.core.Option",
    "import arrow.core.Some",
    "",
    "/**",
    " * Validates raw input [I] into [T], failing with [F].",
    " */",
    "interface ValueValidator<I, F : ValueFailure<I>, T : ValueObject<I>> \x7b",
    "",
    "    fun of(input: I): Either<F, T>",
    "",
    "    fun ofNullable(input: I?): Either<F, T?> = input?.let(::of) ?: Either.Right(null)",
    "",
    "    fun of(input: Option<I>): Either<F, Option<T>> =",
    "        input.fold(\x7b Either.Right(None) \x7d) \x7b of(it).map(::Some) \x7d",
    "",
    "    fun ofNullable(input: Option<I?>): Either<F, Option<T?>> =",
    "        input.fold(\x7b Either.Right(None) \x7d) \x7b ofNullable(it).map(::Some) \x7d",
    "\x7d"
  ]

/-- The validation of lists of results. -/
def functionLines : List String :=
  [
    "package modelsmith.core",
    "",
    "import arrow.core.Either",
    "import arrow.core.Nel",
    "import arrow.core.left",
    "import arrow.core.right",
    "import arrow.core.toNonEmptyListOrNull",
    "",
    "/**",
    " * Every failure of this list, or every value when none failed.",
    " */",
    "fun <L, R> List<Either<L, R>>.validate(): Either<Nel<L>, List<R>> \x7b",
    "    val failures = mutableListOf<L>()",
    "    val values = mutableListOf<R>()",
    "    forEach \x7b it.fold(failures::add, values::add) \x7d",
    "    return failures.toNonEmptyListOrNull()?.left() ?: values.right()",
    "\x7d",
    "",
    "fun <L, R> Nel<Either<L, R>>.validate(): Either<Nel<L>, Nel<R>> \x7b",
    "    val failures = mutableListOf<L>()",
    "    val values = mutableListOf<R>()",
    "    forEach \x7b it.fold(failures::add, values::add) \x7d",
    "    return failures.toNonEmptyListOrNull()?.left() ?: values.toNonEmptyListOrNull()!!.right()",
    "\x7d"
  ]

/-- The validators. -/
def validatorLines : List String :=
  [
    "package modelsmith.core.valuevalidator",
    "",
    "import arrow.core.Either",
    "import modelsmith.core.GenericValueFailure",
    "import modelsmith.core.LengthRange",
    "import modelsmith.core.StringLengthRangeFailure",
    "import modelsmith.core.ValueObject",
    "import modelsmith.core.ValueValidator",
    "",
    "abstract class ComparableMinValueValidator<T : ValueObject<C>, C : Comparable<C>>(private val ctor: (C) -> T) :",
    "    ValueValidator<C, GenericValueFailure<C>, T> \x7b",
    "",
    "    protected abstract val minValue: C",
    "",
    "    override fun of(input: C): Either<GenericValueFailure<C>, T> \x7b",
    "        return if (input < minValue) \x7b",
    "            Either.Left(GenericValueFailure(input))",
    "        \x7d else \x7b",
    "            Either.Right(ctor(input))",
    "        \x7d",
    "    \x7d",
    "\x7d",
    "",
    "abstract class IntMinValueValidator<T : ValueObject<Int>>(ctor: (Int) -> T) :",
    "    ComparableMinValueValidator<T, Int>(ctor)",
    "",
    "abstract class LongMinValueValidator<T : ValueObject<Long>>(ctor: (Long) -> T) :",
    "    ComparableMinValueValidator<T, Long>(ctor)",
    "",
    "abstract class PositiveIntValidator<T : ValueObject<Int>>(ctor: (Int) -> T) : IntMinValueValidator<T>(ctor) \x7b",
    "    override val minValue = 1",
    "\x7d",
    "",
    "abstract class NonNegativeIntValidator<T : ValueObject<Int>>(ctor: (Int) -> T) : IntMinValueValidator<T>(ctor) \x7b",
    "    override val minValue = 0",
    "\x7d",
    "",
    "abstract class PositiveLongValidator<T : ValueObject<Long>>(ctor: (Long) -> T) : LongMinValueValidator<T>(ctor) \x7b",
    "    override val minValue = 1L",
    "\x7d",
    "",
    "abstract class StringLengthRangeValidator<T : ValueObject<String>>(private val ctor: (String) -> T) :",
    "    ValueValidator<String, StringLengthRangeFailure, T>,",
    "    LengthRange \x7b",
    "",
    "    override fun of(input: String): Either<StringLengthRangeFailure, T> \x7b",
    "        return if (input.length < minLength || input.length > maxLength) \x7b",
    "            Either.Left(StringLengthRangeFailure(input, minLength, maxLength))",
    "        \x7d else \x7b",
    "            Either.Right(ctor(input))",
    "        \x7d",
    "    \x7d",
    "\x7d",
    "",
    "abstract class NonEmptyStringValidator<T : ValueObject<String>>(private val ctor: (String) -> T) :",
    "    ValueValidator<String, GenericValueFailure<String>, T> \x7b",
    "",
    "    override fun of(input: String): Either<GenericValueFailure<String>, T> \x7b",
    "        return if (input.isEmpty()) Either.Left(GenericValueFailure(input)) else Either.Right(ctor(input))",
    "    \x7d",
    "\x7d",
    "",
    "abstract class NonBlankStringValidator<T : ValueObject<String>>(private val ctor: (String) -> T) :",
    "    ValueValidator<String, GenericValueFailure<String>, T> \x7b",
    "",
    "    override fun of(input: String): Either<GenericValueFailure<String>, T> \x7b",
    "        return if (input.isBlank()) Either.Left(GenericValueFailure(input)) else Either.Right(ctor(input))",
    "    \x7d",
    "\x7d",
    "",
    "abstract class StringInRegexValidator<T : ValueObject<String>>(private val ctor: (String) -> T) :",
    "    ValueValidator<String, GenericValueFailure<String>, T> \x7b",
    "",
    "    protected abstract val regex: Regex",
    "",
    "    override fun of(input: String): Either<GenericValueFailure<String>, T> \x7b",
    "        return if (regex.matches(input)) Either.Right(ctor(input)) else Either.Left(GenericValueFailure(input))",
    "    \x7d",
    "\x7d",
    "",
    "/**",
    " * HTML5 email address syntax.",
    " */",
    "abstract class EmailAddressValidator<T : ValueObject<String>>(ctor: (String) -> T) : StringInRegexValidator<T>(ctor) \x7b",
    "",
    "    override val regex by lazy \x7b",
    "        Regex(",
    "            \"\"\"^[a-zA-Z0-9.!#$%&'*+/=?^_\x60\x7b|\x7d~-]+@[a-zA-Z0-9](?:[a-zA-Z0-9-]\x7b0,61\x7d[a-zA-Z0-9])?(?:\\.[a-zA-Z0-9](?:[a-zA-Z0-9-]\x7b0,61\x7d[a-zA-Z0-9])?)*$\"\"\"",
    "        )",
    "    \x7d",
    "\x7d"
  ]

/-- The value objects. -/
def valueObjectClassLines : List String :=
  [
    "package modelsmith.core.valueobject",
    "",
    "import modelsmith.core.ValueObject",
    "import modelsmith.core.valuevalidator.EmailAddressValidator",
    "import modelsmith.core.valuevalidator.IntMinValueValidator",
    "import modelsmith.core.valuevalidator.LongMinValueValidator",
    "import modelsmith.core.valuevalidator.NonBlankStringValidator",
    "import modelsmith.core.valuevalidator.NonEmptyStringValidator",
    "import modelsmith.core.valuevalidator.StringLengthRangeValidator",
    "",
    "@JvmInline",
    "value class PositiveInt private constructor(override val value: Int) : ValueObject<Int> \x7b",
    "    companion object : IntMinValueValidator<PositiveInt>(::PositiveInt) \x7b",
    "        override val minValue = 1",
    "    \x7d",
    "\x7d",
    "",
    "@JvmInline",
    "value class NonNegativeInt private constructor(override val value: Int) : ValueObject<Int> \x7b",
    "    companion object : IntMinValueValidator<NonNegativeInt>(::NonNegativeInt) \x7b",
    "        override val minValue = 0",
    "    \x7d",
    "\x7d",
    "",
    "@JvmInline",
    "value class PositiveLong private constructor(override val value: Long) : ValueObject<Long> \x7b",
    "    companion object : LongMinValueValidator<PositiveLong>(::PositiveLong) \x7b",
    "        override val minValue = 1L",
    "    \x7d",
    "\x7d",
    "",
    "@JvmInline",
    "value class NonEmptyString private constructor(override val value: String) : ValueObject<String> \x7b",
    "    companion object : NonEmptyStringValidator<NonEmptyString>(::NonEmptyString)",
    "\x7d",
    "",
    "@JvmInline",
    "value class NonBlankString private constructor(override val value: String) : ValueObject<String> \x7b",
    "    companion object : NonBlankStringValidator<NonBlankString>(::NonBlankString)",
    "\x7d",
    "",
    "@JvmInline",
    "value class EmailAddress private constructor(override val value: String) : ValueObject<String> \x7b",
    "    companion object : EmailAddressValidator<EmailAddress>(::EmailAddress)",
    "\x7d",
    "",
    "@JvmInline",
    "value class String25 private constructor(override val value: String) : ValueObject<String> \x7b",
    "    companion object : StringLengthRangeValidator<String25>(::String25) \x7b",
    "        override val minLength = 1",
    "        override val maxLength = 25",
    "    \x7d",
    "\x7d",
    "",
    "@JvmInline",
    "value class String30 private constructor(override val value: String) : ValueObject<String> \x7b",
    "    companion object : StringLengthRangeValidator<String30>(::String30) \x7b",
    "        override val minLength = 1",
    "        override val maxLength = 30",
    "    \x7d",
    "\x7d",
    "",
    "@JvmInline",
    "value class String50 private constructor(override val value: String) : ValueObject<String> \x7b",
    "    companion object : StringLengthRangeValidator<String50>(::String50) \x7b",
    "        override val minLength = 1",
    "        override val maxLength = 50",
    "    \x7d",
    "\x7d",
    "",
    "@JvmInline",
    "value class String75 private constructor(override val value: String) : ValueObject<String> \x7b",
    "    companion object : StringLengthRangeValidator<String75>(::String75) \x7b",
    "        override val minLength = 1",
    "        override val maxLength = 75",
    "    \x7d",
    "\x7d",
    "",
    "@JvmInline",
    "value class String100 private constructor(override val value: String) : ValueObject<String> \x7b",
    "    companion object : StringLengthRangeValidator<String100>(::String100) \x7b",
    "        override val minLength = 1",
    "        override val maxLength = 100",
    "    \x7d",
    "\x7d",
    "",
    "@JvmInline",
    "value class String150 private constructor(override val value: String) : ValueObject<String> \x7b",
    "    companion object : StringLengthRangeValidator<String150>(::String150) \x7b",
    "        override val minLength = 1",
    "        override val maxLength = 150",
    "    \x7d",
    "\x7d",
    "",
    "@JvmInline",
    "value class String200 private constructor(override val value: String) : ValueObject<String> \x7b",
    "    companion object : StringLengthRangeValidator<String200>(::String200) \x7b",
    "        override val minLength = 1",
    "        override val maxLength = 200",
    "    \x7d",
    "\x7d",
    "",
    "@JvmInline",
    "value class String300 private constructor(override val value: String) : ValueObject<String> \x7b",
    "    companion object : StringLengthRangeValidator<String300>(::String300) \x7b",
    "        override val minLength = 1",
    "        override val maxLength = 300",
    "    \x7d",
    "\x7d",
    "",
    "@JvmInline",
    "value class String500 private constructor(override val value: String) : ValueObject<String> \x7b",
    "    companion object : StringLengthRangeValidator<String500>(::String500) \x7b",
    "        override val minLength = 1",
    "        override val maxLength = 500",
    "    \x7d",
    "\x7d"
  ]

/-- The text of lines, each with its end. -/
def textOfLines (lines : List String) : String :=
  String.join (lines.map (· ++ "\n"))

/-- The files of the library: paths and texts. -/
def sources : List (String × String) :=
  [
    ("modelsmith/annotation/Annotations.kt", textOfLines annotationLines),
    ("modelsmith/core/ValueObject.kt", textOfLines valueObjectLines),
    ("modelsmith/core/ValueValidator.kt", textOfLines validatorInterfaceLines),
    ("modelsmith/core/Functions.kt", textOfLines functionLines),
    ("modelsmith/core/valuevalidator/Validators.kt", textOfLines validatorLines),
    ("modelsmith/core/valueobject/ValueObjects.kt", textOfLines valueObjectClassLines)
  ]

end ModelForge.Library
