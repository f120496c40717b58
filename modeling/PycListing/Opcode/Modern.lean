import PycListing.Opcode.Table

/-! # Opcodes of the modern versions

Versions 3.0 to 3.6, each by what it changes in the one before it.
-/

namespace PycListing.Opcode.Modern

def steps30 : List Step :=
  [
    .plain
      [(0, "STOP_CODE"), (1, "POP_TOP"), (2, "ROT_TWO"), (3, "ROT_THREE"), (4, "DUP_TOP"),
       (5, "ROT_FOUR"), (9, "NOP"), (10, "UNARY_POSITIVE"), (11, "UNARY_NEGATIVE"),
       (12, "UNARY_NOT"), (15, "UNARY_INVERT"), (17, "SET_ADD"), (18, "LIST_APPEND"),
       (19, "BINARY_POWER"), (20, "BINARY_MULTIPLY"), (22, "BINARY_MODULO"), (23, "BINARY_ADD"),
       (24, "BINARY_SUBTRACT"), (25, "BINARY_SUBSCR"), (26, "BINARY_FLOOR_DIVIDE"),
       (27, "BINARY_TRUE_DIVIDE"), (28, "INPLACE_FLOOR_DIVIDE"), (29, "INPLACE_TRUE_DIVIDE"),
       (54, "STORE_MAP"), (55, "INPLACE_ADD"), (56, "INPLACE_SUBTRACT"), (57, "INPLACE_MULTIPLY"),
       (59, "INPLACE_MODULO"), (60, "STORE_SUBSCR"), (61, "DELETE_SUBSCR"), (62, "BINARY_LSHIFT"),
       (63, "BINARY_RSHIFT"), (64, "BINARY_AND"), (65, "BINARY_XOR"), (66, "BINARY_OR"),
       (67, "INPLACE_POWER"), (68, "GET_ITER"), (69, "STORE_LOCALS"), (70, "PRINT_EXPR"),
       (71, "LOAD_BUILD_CLASS"), (75, "INPLACE_LSHIFT"), (76, "INPLACE_RSHIFT"),
       (77, "INPLACE_AND"), (78, "INPLACE_XOR"), (79, "INPLACE_OR"), (80, "BREAK_LOOP"),
       (81, "WITH_CLEANUP"), (83, "RETURN_VALUE"), (84, "IMPORT_STAR"), (86, "YIELD_VALUE"),
       (87, "POP_BLOCK"), (88, "END_FINALLY"), (89, "POP_EXCEPT"), (92, "UNPACK_SEQUENCE"),
       (94, "UNPACK_EX"), (99, "DUP_TOPX"), (102, "BUILD_TUPLE"), (103, "BUILD_LIST"),
       (104, "BUILD_SET"), (105, "BUILD_MAP"), (130, "RAISE_VARARGS"), (132, "MAKE_FUNCTION"),
       (133, "BUILD_SLICE"), (134, "MAKE_CLOSURE"), (143, "EXTENDED_ARG")],
    .typed .name
      [(90, "STORE_NAME"), (91, "DELETE_NAME"), (95, "STORE_ATTR"), (96, "DELETE_ATTR"),
       (97, "STORE_GLOBAL"), (98, "DELETE_GLOBAL"), (101, "LOAD_NAME"), (106, "LOAD_ATTR"),
       (108, "IMPORT_NAME"), (109, "IMPORT_FROM"), (116, "LOAD_GLOBAL")],
    .typed .relativeJump
      [(93, "FOR_ITER"), (110, "JUMP_FORWARD"), (111, "JUMP_IF_FALSE"), (112, "JUMP_IF_TRUE"),
       (120, "SETUP_LOOP"), (121, "SETUP_EXCEPT"), (122, "SETUP_FINALLY")],
    .typed .constant [(100, "LOAD_CONST")],
    .typed .comparison [(107, "COMPARE_OP")],
    .typed .absoluteJump [(113, "JUMP_ABSOLUTE"), (119, "CONTINUE_LOOP")],
    .typed .variable [(124, "LOAD_FAST"), (125, "STORE_FAST"), (126, "DELETE_FAST")],
    .typed .callCounts
      [(131, "CALL_FUNCTION"), (140, "CALL_FUNCTION_VAR"), (141, "CALL_FUNCTION_KW"),
       (142, "CALL_FUNCTION_VAR_KW")],
    .typed .cell [(135, "LOAD_CLOSURE"), (136, "LOAD_DEREF"), (137, "STORE_DEREF")]]

def steps31 : List Step :=
  steps30 ++ [
    .remove [(17, "SET_ADD"), (18, "LIST_APPEND")],
    .plain [(145, "LIST_APPEND"), (146, "SET_ADD"), (147, "MAP_ADD")],
    .typed .absoluteJump
      [(111, "JUMP_IF_FALSE_OR_POP"), (112, "JUMP_IF_TRUE_OR_POP"), (114, "POP_JUMP_IF_FALSE"),
       (115, "POP_JUMP_IF_TRUE")]]

/-- Version 3.2, where the opcode that extends arguments moves. -/
def steps32 : List Step :=
  steps31 ++ [
    .remove [(99, "DUP_TOPX")],
    .plain [(5, "DUP_TOP_TWO"), (144, "EXTENDED_ARG")],
    .typed .cell [(138, "DELETE_DEREF")],
    .typed .relativeJump [(143, "SETUP_WITH")]]

/-- Version 3.3, with delegating generators. -/
def steps33 : List Step :=
  steps32 ++ [
    .remove [(0, "STOP_CODE")],
    .plain [(72, "YIELD_FROM")]]

def steps34 : List Step :=
  steps33 ++ [
    .remove [(69, "STORE_LOCALS")],
    .typed .cell [(148, "LOAD_CLASSDEREF")]]

/-- Version 3.5, with coroutines and unpacking displays. -/
def steps35 : List Step :=
  steps34 ++ [
    .remove [(54, "STORE_MAP"), (81, "WITH_CLEANUP")],
    .plain
      [(16, "BINARY_MATRIX_MULTIPLY"), (17, "INPLACE_MATRIX_MULTIPLY"), (50, "GET_AITER"),
       (51, "GET_ANEXT"), (52, "BEFORE_ASYNC_WITH"), (69, "GET_YIELD_FROM_ITER"),
       (73, "GET_AWAITABLE"), (81, "WITH_CLEANUP_START"), (82, "WITH_CLEANUP_FINISH"),
       (149, "BUILD_LIST_UNPACK"), (150, "BUILD_MAP_UNPACK"), (151, "BUILD_MAP_UNPACK_WITH_CALL"),
       (152, "BUILD_TUPLE_UNPACK"), (153, "BUILD_SET_UNPACK")],
    .typed .relativeJump [(154, "SETUP_ASYNC_WITH")]]

/-- Version 3.6, the first of word code; the arguments of calls are plain counts again. -/
def steps36 : List Step :=
  steps35 ++ [
    .remove [(134, "MAKE_CLOSURE"), (140, "CALL_FUNCTION_VAR"), (142, "CALL_FUNCTION_VAR_KW")],
    .plain
      [(85, "SETUP_ANNOTATIONS"), (131, "CALL_FUNCTION"), (141, "CALL_FUNCTION_KW"),
       (142, "CALL_FUNCTION_EX"), (155, "FORMAT_VALUE"), (156, "BUILD_CONST_KEY_MAP"),
       (157, "BUILD_STRING"), (158, "BUILD_TUPLE_UNPACK_WITH_CALL")],
    .typed .name [(127, "STORE_ANNOTATION")]]

end PycListing.Opcode.Modern
